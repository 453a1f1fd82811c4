import RecordLinkage.Drain
import RecordLinkage.Proofs.Program.Run
import RecordLinkage.Proofs.Store.Vertices

namespace RecordLinkage

variable {ω : Type} [Weight ω]

namespace Graph

/-- The vertices linked to `v`, from both sides. -/
def neighbors (G : Graph ω) (v : VertexId) : SortedMap VertexId ω :=
  joinSides v (G.edges.destinations v) (G.edges.sources v)

def link (G : Graph ω) (u v : VertexId) (w : ω) : Graph ω :=
  match Link.between? u v with
  | some l => G.putLink l w
  | none => G

def unlink (G : Graph ω) (u v : VertexId) : Graph ω :=
  match Link.between? u v with
  | some l => G.eraseLink l
  | none => G

def linkAll (G : Graph ω) (v : VertexId) (links : List (VertexId × ω)) : Graph ω :=
  links.foldl (fun G p => G.link v p.1 p.2) G

def unlinkAll (G : Graph ω) (v : VertexId) (neighbors : List VertexId) : Graph ω :=
  neighbors.foldl (fun G u => G.unlink v u) G

/-- The new links of the union of the ends of `l`. -/
def relinks (G : Graph ω) (l : Link) (w : ω) : SortedMap VertexId ω :=
  relinked ((G.neighbors l.src).erase l.dst) ((G.neighbors l.dst).erase l.src) w

/-- Makes one vertex `k` of the ends `x` and `y` of a link of weight `w`. -/
def contract (G : Graph ω) (l : Link) (w : ω) (x y : Cluster ω) (k : VertexId) : Graph ω :=
  let linked := (G.adjoin k x y w).linkAll k (G.relinks l w).toList
  let unlinkedA := linked.unlinkAll l.src (SortedMap.keys ((G.neighbors l.src).erase l.dst))
  let unlinkedB := unlinkedA.unlinkAll l.dst (SortedMap.keys ((G.neighbors l.dst).erase l.src))
  ((unlinkedB.eraseLink l).retire l.src).retire l.dst

theorem vertices_link (G : Graph ω) (u v : VertexId) (w : ω) :
    (G.link u v w).clusters = G.clusters ∧ (G.link u v w).retired = G.retired := by
  rw [link]
  split <;> exact ⟨rfl, rfl⟩

theorem vertices_unlink (G : Graph ω) (u v : VertexId) :
    (G.unlink u v).clusters = G.clusters ∧ (G.unlink u v).retired = G.retired := by
  rw [unlink]
  split <;> exact ⟨rfl, rfl⟩

theorem vertices_linkAll (G : Graph ω) (v : VertexId) (links : List (VertexId × ω)) :
    (G.linkAll v links).clusters = G.clusters ∧ (G.linkAll v links).retired = G.retired := by
  induction links generalizing G with
  | nil => exact ⟨rfl, rfl⟩
  | cons p links ih =>
    obtain ⟨hc, hr⟩ := ih (G.link v p.1 p.2)
    exact ⟨hc.trans (vertices_link G v p.1 p.2).1, hr.trans (vertices_link G v p.1 p.2).2⟩

theorem vertices_unlinkAll (G : Graph ω) (v : VertexId) (l : List VertexId) :
    (G.unlinkAll v l).clusters = G.clusters ∧ (G.unlinkAll v l).retired = G.retired := by
  induction l generalizing G with
  | nil => exact ⟨rfl, rfl⟩
  | cons u l ih =>
    obtain ⟨hc, hr⟩ := ih (G.unlink v u)
    exact ⟨hc.trans (vertices_unlink G v u).1, hr.trans (vertices_unlink G v u).2⟩

@[simp] theorem cluster?_linkAll (G : Graph ω) (v : VertexId) (links : List (VertexId × ω))
    (u : VertexId) : (G.linkAll v links).cluster? u = G.cluster? u := by
  rw [cluster?, (vertices_linkAll G v links).1, cluster?]

@[simp] theorem cluster?_unlinkAll (G : Graph ω) (v : VertexId) (l : List VertexId) (u : VertexId) :
    (G.unlinkAll v l).cluster? u = G.cluster? u := by
  rw [cluster?, (vertices_unlinkAll G v l).1, cluster?]

theorem cluster?_contract (G : Graph ω) (l : Link) (w : ω) (x y : Cluster ω) (k u : VertexId) :
    (G.contract l w x y k).cluster? u =
      if l.dst = u ∨ l.src = u then none
      else if k = u then some (.merged x y w) else G.cluster? u := by
  simp only [contract, cluster?_retire, cluster?_eraseLink, cluster?_unlinkAll, cluster?_linkAll,
    cluster?_adjoin]
  by_cases hdst : l.dst = u
  · simp [hdst]
  · by_cases hsrc : l.src = u <;> simp [hdst, hsrc]

theorem cluster?_of_not_taken {G : Graph ω} {v : VertexId} (h : G.taken v = false) :
    G.cluster? v = none := by
  rw [taken, Bool.or_eq_false_iff, live_eq_isSome] at h
  simpa using h.1

theorem cluster?_contract_iff {G : Graph ω} {l : Link} {w : ω} {x y c : Cluster ω}
    {k u : VertexId} (hsrc : G.cluster? l.src = some x) (hdst : G.cluster? l.dst = some y)
    (hfree : G.taken k = false) :
    (G.contract l w x y k).cluster? u = some c ↔
      u = k ∧ c = .merged x y w ∨
        u ≠ k ∧ u ≠ l.src ∧ u ≠ l.dst ∧ G.cluster? u = some c := by
  have hnone := cluster?_of_not_taken hfree
  have hk : ¬ (l.dst = k ∨ l.src = k) := by
    intro hk
    rcases hk with rfl | rfl
    · cases hnone.symm.trans hdst
    · cases hnone.symm.trans hsrc
  rw [cluster?_contract]
  by_cases hu : u = k
  · subst hu
    rw [if_neg hk, if_pos rfl]
    simp [eq_comm]
  · by_cases hends : l.dst = u ∨ l.src = u
    · rw [if_pos hends]
      rcases hends with rfl | rfl <;> simp [hu]
    · rw [if_neg hends, if_neg (Ne.symm hu)]
      rw [not_or] at hends
      simp [hu, Ne.symm hends.1, Ne.symm hends.2]

theorem mem_retired_contract (G : Graph ω) (l : Link) (w : ω) (x y : Cluster ω) (k u : VertexId) :
    u ∈ (G.contract l w x y k).retired ↔ u = l.dst ∨ u = l.src ∨ u ∈ G.retired := by
  simp only [contract, mem_retired_retire, retired_eraseLink, (vertices_unlinkAll _ _ _).2,
    (vertices_linkAll _ _ _).2, retired_adjoin]

theorem taken_contract (G : Graph ω) (l : Link) (w : ω) (x y : Cluster ω) (k u : VertexId) :
    (G.contract l w x y k).taken u = true ↔
      G.taken u = true ∨ u = k ∨ u = l.src ∨ u = l.dst := by
  rw [taken_iff, taken_iff, live_eq_isSome, live_eq_isSome, cluster?_contract, mem_retired_contract]
  by_cases hends : l.dst = u ∨ l.src = u
  · rw [if_pos hends]
    rcases hends with rfl | rfl <;> simp
  · rw [if_neg hends]
    have hdst : u ≠ l.dst := fun e => hends (.inl e.symm)
    have hsrc : u ≠ l.src := fun e => hends (.inr e.symm)
    by_cases hk : k = u
    · simp [hk]
    · simp [hk, hdst, hsrc, Ne.symm hk]

end Graph

/-- Only the graph `g` has changed, to `G`. -/
def Memory.Becomes (m : Memory ω) (g : GraphId) (G : Graph ω) (m' : Memory ω) : Prop :=
  ∀ h, m'.store.graph h = if g = h then G else m.store.graph h

namespace Memory

variable {m m' m'' : Memory ω} {g : GraphId} {G G' : Graph ω}

theorem Becomes.graph (h : m.Becomes g G m') : m'.store.graph g = G := by
  rw [h g, if_pos rfl]

theorem Becomes.other (h : m.Becomes g G m') {g' : GraphId} (hg : g ≠ g') :
    m'.store.graph g' = m.store.graph g' := by
  rw [h g', if_neg hg]

theorem Becomes.refl (m : Memory ω) (g : GraphId) : m.Becomes g (m.store.graph g) m := by
  intro h
  split
  · rename_i hg
    rw [hg]
  · rfl

theorem Becomes.trans (h : m.Becomes g G m') (h' : m'.Becomes g G' m'') : m.Becomes g G' m'' := by
  intro g'
  rw [h' g']
  split
  · rfl
  · rename_i hg
    exact h.other hg

theorem Becomes.removeVertex (h : m.Becomes g G m') {v : VertexId} {c : Cluster ω}
    (hv : G.cluster? v = some c) {b : Bool}
    (hr : (Program.removeVertex ⟨g, v⟩).run m' = (.ok b, m'')) : m.Becomes g (G.retire v) m'' := by
  have hstore : m''.store = (m'.store.removeVertex ⟨g, v⟩).2 := by
    cases hr
    rfl
  -- A graph that has a vertex is there, so the removal is carried out.
  have hhas : m'.store.hasGraph g = true := by
    cases hno : m'.store.hasGraph g with
    | true => rfl
    | false =>
      have hempty := Store.graph_of_hasGraph_eq_false hno
      rw [h.graph] at hempty
      rw [hempty] at hv
      cases hv
  intro g'
  rw [hstore, Store.graph_removeVertex]
  dsimp only
  rw [h.graph, hhas]
  simp only [and_true]
  split
  · rfl
  · rename_i hg
    exact h.other hg

end Memory

namespace Drain

open Program

theorem run_neighbors (m : Memory ω) (k : VertexKey) :
    (Program.neighbors k).run m =
      (.ok ((m.store.graph k.graph).neighbors k.vertex), m) := rfl

theorem run_live (m : Memory ω) (k : VertexKey) :
    (Program.live k).run m = (.ok ((m.store.graph k.graph).live k.vertex), m) := by
  rw [Graph.live_eq_isSome]
  rfl

theorem edgeWithin_eq_ok {g : GraphId} {a b : VertexId} {m m' : Memory ω} {e : Edge} :
    (edgeWithin g a b).run m = (.ok e, m') ↔
      ∃ l, Link.between? a b = some l ∧ e = ⟨g, l⟩ ∧ m' = m := by
  rw [edgeWithin, Edge.between, if_neg (not_not_intro rfl)]
  cases hl : Link.between? a b with
  | none =>
    constructor
    · intro h
      cases h
    · intro h
      obtain ⟨l, hl, -⟩ := h
      cases hl
  | some l =>
    constructor
    · intro h
      cases h
      exact ⟨l, rfl, rfl, rfl⟩
    · intro h
      obtain ⟨l', hl', rfl, rfl⟩ := h
      cases hl'
      rfl

theorem run_putEdge (e : Edge) (w : ω) (m : Memory ω) :
    (Program.putEdge e w).run m =
      match m.store.putEdge e w with
      | .ok s => (.ok (), { m with store := s })
      | .error cause => (.error (.store cause), m) := by
  have hperform : Call.perform (.putEdge e w) m =
      match m.store.putEdge e w with
      | .ok s => (.ok (), { m with store := s })
      | .error cause => (.error cause, m) := rfl
  change ((Outcome.ofExcept (Call.perform (.putEdge e w) m).1).mapError Error.store,
    (Call.perform (.putEdge e w) m).2) = _
  rw [hperform]
  cases m.store.putEdge e w with
  | ok s => rfl
  | error cause => rfl

theorem run_putEdge_ok {e : Edge} {w : ω} {m m' : Memory ω}
    (h : (Program.putEdge e w).run m = (.ok (), m')) :
    Weight.storable w = true ∧
      m.Becomes e.graph ((m.store.graph e.graph).putLink e.link w) m' := by
  rw [run_putEdge] at h
  split at h
  · rename_i s hs
    obtain ⟨hw, rfl⟩ := Store.putEdge_eq_ok.mp hs
    cases h
    exact ⟨hw, fun g => Store.graph_setGraph _ _ _ g⟩
  · cases h

theorem run_removeEdge_ok {e : Edge} {m m' : Memory ω} {b : Bool}
    (h : (Program.removeEdge e).run m = (.ok b, m')) :
    m.Becomes e.graph ((m.store.graph e.graph).eraseLink e.link) m' := by
  cases h
  exact fun g => Store.graph_removeEdge _ _ g

theorem run_putLinks_ok {g : GraphId} {v : VertexId} {links : List (VertexId × ω)}
    {m m' : Memory ω}
    (h : (links.forM fun p => do Program.putEdge (← edgeWithin g v p.1) p.2).run m = (.ok (), m')) :
    m.Becomes g ((m.store.graph g).linkAll v links) m' ∧
      ∀ p ∈ links, Weight.storable p.2 = true ∧ (Link.between? v p.1).isSome = true := by
  induction links generalizing m with
  | nil =>
    cases h
    exact ⟨.refl _ g, nofun⟩
  | cons p links ih =>
    rw [run_forM_cons, run_bind_eq_ok] at h
    obtain ⟨_, m₁, hone, hrest⟩ := h
    obtain ⟨e, m₂, he, hput⟩ := run_bind_eq_ok.mp hone
    obtain ⟨l, hl, rfl, rfl⟩ := edgeWithin_eq_ok.mp he
    obtain ⟨hw, h₁⟩ := run_putEdge_ok hput
    obtain ⟨h₂, hall⟩ := ih hrest
    rw [h₁.graph] at h₂
    constructor
    · have hcons : (m₂.store.graph g).linkAll v (p :: links) =
          ((m₂.store.graph g).putLink l p.2).linkAll v links := by
        simp only [Graph.linkAll, List.foldl_cons, Graph.link, hl]
      rw [hcons]
      exact h₁.trans h₂
    · rw [List.forall_mem_cons]
      exact ⟨⟨hw, by rw [hl]; rfl⟩, hall⟩

theorem run_unlink_ok {g : GraphId} {v : VertexId} {l : List VertexId} {m m' : Memory ω}
    (h : (unlink g v l).run m = (.ok (), m')) :
    m.Becomes g ((m.store.graph g).unlinkAll v l) m' := by
  unfold unlink at h
  induction l generalizing m with
  | nil =>
    cases h
    exact .refl _ g
  | cons u l ih =>
    rw [run_forM_cons, run_bind_eq_ok] at h
    obtain ⟨_, m₁, hone, hrest⟩ := h
    obtain ⟨e, m₂, he, hremove⟩ := run_bind_eq_ok.mp hone
    obtain ⟨k, hk, rfl, rfl⟩ := edgeWithin_eq_ok.mp he
    obtain ⟨b, hremove⟩ := run_discard_eq_ok.mp hremove
    have h₁ := run_removeEdge_ok hremove
    have h₂ := ih hrest
    rw [h₁.graph] at h₂
    have hcons : (m₂.store.graph g).unlinkAll v (u :: l) =
        ((m₂.store.graph g).eraseLink k).unlinkAll v l := by
      simp only [Graph.unlinkAll, List.foldl_cons, Graph.unlink, hk]
    rw [hcons]
    exact h₁.trans h₂

/-- What follows the union of the ends of `e`, read from a graph `G` that the union has been
adjoined to. -/
theorem run_replaceParts_ok {e : Edge} {k : VertexId} {w : ω} {x y : Cluster ω} {G : Graph ω}
    {m m₁ m' : Memory ω} (hm : m.Becomes e.graph (G.adjoin k x y w) m₁)
    (hsrc : G.cluster? e.link.src = some x) (hdst : G.cluster? e.link.dst = some y)
    (hne : e.link.src ≠ e.link.dst) (hk : k ≠ e.link.src ∧ k ≠ e.link.dst)
    (h : (replaceParts e k (G.relinks e.link w) ((G.neighbors e.link.src).erase e.link.dst)
      ((G.neighbors e.link.dst).erase e.link.src)).run m₁ = (.ok (), m')) :
    m.Becomes e.graph (G.contract e.link w x y k) m' ∧
      ∀ p ∈ (G.relinks e.link w).toList,
        Weight.storable p.2 = true ∧ (Link.between? k p.1).isSome = true := by
  unfold replaceParts at h
  obtain ⟨_, m₂, hput, h⟩ := run_bind_eq_ok.mp h
  obtain ⟨_, m₃, hunlinkA, h⟩ := run_bind_eq_ok.mp h
  obtain ⟨_, m₄, hunlinkB, h⟩ := run_bind_eq_ok.mp h
  obtain ⟨_, m₅, herase, h⟩ := run_bind_eq_ok.mp h
  obtain ⟨_, m₆, hretireA, hretireB⟩ := run_bind_eq_ok.mp h
  obtain ⟨_, herase⟩ := run_discard_eq_ok.mp herase
  obtain ⟨_, hretireA⟩ := run_discard_eq_ok.mp hretireA
  obtain ⟨_, hretireB⟩ := run_discard_eq_ok.mp hretireB
  obtain ⟨h₂, hall⟩ := run_putLinks_ok hput
  have h₃ := run_unlink_ok hunlinkA
  have h₄ := run_unlink_ok hunlinkB
  have h₅ := run_removeEdge_ok herase
  -- Every call reads the graph that the one before it left.
  rw [hm.graph] at h₂
  rw [h₂.graph] at h₃
  rw [h₃.graph] at h₄
  rw [h₄.graph] at h₅
  have hb := (((hm.trans h₂).trans h₃).trans h₄).trans h₅
  have h₆ := hb.removeVertex (c := x) (by simp [Graph.cluster?_adjoin, hk.1, hsrc]) hretireA
  have h₇ := h₆.removeVertex (c := y)
    (by simp [Graph.cluster?_retire, Graph.cluster?_adjoin, hne, hk.2, hdst]) hretireB
  exact ⟨h₇, hall⟩

/-- What a step that succeeds has found and done. -/
inductive Stepped (m : Memory ω) (g : GraphId) (t : ω) : Step ω → Memory ω → Prop where
  | exhausted (lightest : m.store.lightest? g = none) : Stepped m g t (.done .exhausted) m
  | reached {e : Edge} {w : ω} (lightest : m.store.lightest? g = some (e, w))
    (weight : Weight.lt w t = false) : Stepped m g t (.done (.thresholdReached w)) m
  | stale {e : Edge} {w : ω} {m' : Memory ω} (lightest : m.store.lightest? g = some (e, w))
    (weight : Weight.lt w t = true)
    (gone : (m.store.graph g).live e.link.src = false ∨ (m.store.graph g).live e.link.dst = false)
    (becomes : m.Becomes g ((m.store.graph g).eraseLink e.link) m') :
    Stepped m g t (.stale e) m'
  | merged {e : Edge} {w : ω} {x y : Cluster ω} {k : VertexKey} {m' : Memory ω}
    (lightest : m.store.lightest? g = some (e, w)) (weight : Weight.lt w t = true)
    (joins : m.Joins e.src e.dst w x y k)
    (relinks : ∀ p ∈ ((m.store.graph g).relinks e.link w).toList,
      Weight.storable p.2 = true ∧ (Link.between? k.vertex p.1).isSome = true)
    (becomes : m.Becomes g ((m.store.graph g).contract e.link w x y k.vertex) m') :
    Stepped m g t
      (.merged ⟨e.src, e.dst, k, w, ((m.store.graph g).relinks e.link w).size⟩) m'

theorem lightest?_graph {m : Memory ω} {g : GraphId} {e : Edge} {w : ω}
    (h : m.store.lightest? g = some (e, w)) : e.graph = g := by
  obtain ⟨p, -, hp⟩ := Option.map_eq_some_iff.mp h
  cases hp
  rfl

/-- What erasing a link and joining two clusters preserve, a step preserves in every graph. -/
theorem Stepped.preserves {m m' : Memory ω} {g : GraphId} {t : ω} {s : Step ω}
    (hs : Stepped m g t s m') {P : Graph ω → Prop} (herase : ∀ G l, P G → P (G.eraseLink l))
    (hcontract : ∀ G (l : Link) (w : ω) x y k, G.cluster? l.src = some x → G.cluster? l.dst = some y →
      G.taken k = false → k.uuid.version = 4 → P G → P (G.contract l w x y k))
    {g' : GraphId} (h : P (m.store.graph g')) : P (m'.store.graph g') := by
  cases hs with
  | exhausted => exact h
  | reached => exact h
  | stale lightest weight gone becomes =>
    by_cases hg : g = g'
    · subst hg
      rw [becomes.graph]
      exact herase _ _ h
    · rw [becomes.other hg]
      exact h
  | merged lightest weight joins relinks becomes =>
    by_cases hg : g = g'
    · subst hg
      have he := lightest?_graph lightest
      subst he
      rw [becomes.graph]
      exact hcontract _ _ _ _ _ _ joins.left joins.right joins.free joins.version h
    · rw [becomes.other hg]
      exact h

theorem lightest?_edges {m : Memory ω} {g : GraphId} {e : Edge} {w : ω}
    (h : m.store.lightest? g = some (e, w)) :
    (m.store.graph g).edges.lightest? = some (w, e.link) := by
  obtain ⟨p, hlightest, hp⟩ := Option.map_eq_some_iff.mp h
  cases hp
  exact hlightest

theorem lightest?_of_edges {m : Memory ω} {g : GraphId} {l : Link} {w : ω}
    (h : (m.store.graph g).edges.lightest? = some (w, l)) :
    m.store.lightest? g = some (⟨g, l⟩, w) := by
  rw [Store.lightest?, h]
  rfl

/-- Ends that are live when a merge starts are still live when the union is made. -/
theorem run_merge_ok {e : Edge} {w : ω} {m m' : Memory ω} {s : Step ω}
    (hsrc : (m.store.graph e.graph).live e.link.src = true)
    (hdst : (m.store.graph e.graph).live e.link.dst = true)
    (h : (merge e w).run m = (.ok s, m')) :
    ∃ x y k, m.Joins e.src e.dst w x y k ∧
      (∀ p ∈ ((m.store.graph e.graph).relinks e.link w).toList,
        Weight.storable p.2 = true ∧ (Link.between? k.vertex p.1).isSome = true) ∧
      m.Becomes e.graph ((m.store.graph e.graph).contract e.link w x y k.vertex) m' ∧
      s = .merged ⟨e.src, e.dst, k, w, ((m.store.graph e.graph).relinks e.link w).size⟩ := by
  unfold merge at h
  rw [run_bind_of_ok (run_neighbors m e.src), run_bind_of_ok (run_neighbors m e.dst)] at h
  change Program.run (.ask _ _) m = _ at h
  rw [run_ask] at h
  simp only [Call.perform] at h
  -- Both ends are live, so that the merge is refused only for reasons that fail the step.
  rcases hmerge : m.merge e.src e.dst w with ⟨cause | k, m₁⟩
  · rw [hmerge] at h
    obtain ⟨x, hx⟩ := Graph.live_iff.mp hsrc
    obtain ⟨y, hy⟩ := Graph.live_iff.mp hdst
    cases cause with
    | vertexNotFound missing =>
      rcases Memory.merge_vertexNotFound hmerge with hnone | hnone
      · cases hnone.symm.trans hx
      · cases hnone.symm.trans hy
    | graphMismatch | selfLoop | invalidWeight | backend => cases h
  · rw [hmerge] at h
    obtain ⟨x, y, hjoins, hstore⟩ := Memory.merge_ok hmerge
    have hbecomes : m.Becomes e.graph ((m.store.graph e.graph).adjoin k.vertex x y w) m₁ := by
      intro g
      rw [hstore]
      exact Store.graph_setGraph _ _ _ g
    have hk : k.vertex ≠ e.link.src ∧ k.vertex ≠ e.link.dst := by
      constructor <;> intro hk <;> have hfree := hjoins.free <;> rw [hk] at hfree
      · rw [Graph.taken, Edge.src, hsrc] at hfree
        cases hfree
      · rw [Graph.taken, Edge.src, hdst] at hfree
        cases hfree
    obtain ⟨_, m₂, hreplace, hdone⟩ := run_bind_eq_ok.mp h
    obtain ⟨hcontract, hall⟩ :=
      run_replaceParts_ok hbecomes hjoins.left hjoins.right hjoins.distinct hk hreplace
    cases hdone
    exact ⟨x, y, k, hjoins, hall, hcontract, rfl⟩

theorem run_stale_ok {e : Edge} {m m' : Memory ω} {s : Step ω}
    (h : (do discard (removeEdge e); return .stale e : Program ω (Step ω)).run m = (.ok s, m')) :
    s = .stale e ∧ m.Becomes e.graph ((m.store.graph e.graph).eraseLink e.link) m' := by
  obtain ⟨_, m₁, herase, hdone⟩ := run_bind_eq_ok.mp h
  obtain ⟨_, herase⟩ := run_discard_eq_ok.mp herase
  have hbecomes := run_removeEdge_ok herase
  cases hdone
  exact ⟨rfl, hbecomes⟩

theorem run_step_ok {g : GraphId} {t : ω} {m m' : Memory ω} {s : Step ω}
    (h : (step g t).run m = (.ok s, m')) : Weight.bounding t = true ∧ Stepped m g t s m' := by
  unfold step at h
  obtain ⟨_, m₀, hcheck, hrest⟩ := run_bind_eq_ok.mp h
  rw [checkThreshold] at hcheck
  split at hcheck
  · rename_i ht
    cases hcheck
    refine ⟨ht, ?_⟩
    obtain ⟨found, m₁, hfound, hfollow⟩ := run_bind_eq_ok.mp hrest
    have hlightest : m.store.lightest? g = found := by
      cases hfound
      rfl
    have hm : m₁ = m := by
      cases hfound
      rfl
    subst hm
    cases found with
    | none =>
      cases hfollow
      exact .exhausted hlightest
    | some p =>
      obtain ⟨e, w⟩ := p
      have hg := lightest?_graph hlightest
      subst hg
      dsimp only at hfollow
      split at hfollow
      · rename_i hw
        cases hfollow
        exact .reached hlightest (by simpa using hw)
      · rename_i hw
        have hw : Weight.lt w t = true := by simpa using hw
        -- The second end is looked up only if the first one is there.
        rw [run_bind_of_ok (run_live m₁ e.src)] at hfollow
        cases hsrc : (m₁.store.graph e.graph).live e.link.src with
        | false =>
          rw [Edge.src, hsrc] at hfollow
          obtain ⟨rfl, hbecomes⟩ := run_stale_ok hfollow
          exact .stale hlightest hw (.inl hsrc) hbecomes
        | true =>
          rw [Edge.src, hsrc, if_pos rfl, run_bind_of_ok (run_live m₁ e.dst)] at hfollow
          cases hdst : (m₁.store.graph e.graph).live e.link.dst with
          | false =>
            rw [Edge.dst, hdst] at hfollow
            obtain ⟨rfl, hbecomes⟩ := run_stale_ok hfollow
            exact .stale hlightest hw (.inr hdst) hbecomes
          | true =>
            rw [Edge.dst, hdst, if_pos rfl] at hfollow
            obtain ⟨x, y, k, hjoins, hall, hbecomes, rfl⟩ := run_merge_ok hsrc hdst hfollow
            exact .merged hlightest hw hjoins hall hbecomes
  · cases hcheck

end Drain

end RecordLinkage
