import RecordLinkage.Proofs.Drain.Anchored
import RecordLinkage.Proofs.Store.Commute

namespace RecordLinkage

variable {ω : Type} [Weight ω]

namespace Program

theorem run_forM_ok {γ : Type} {f : γ → Program ω Unit} {l : List γ}
    (h : ∀ x ∈ l, ∀ m, ∃ m', (f x).run m = (.ok (), m')) (m : Memory ω) :
    ∃ m', (l.forM f).run m = (.ok (), m') := by
  induction l generalizing m with
  | nil => exact ⟨m, rfl⟩
  | cons x l ih =>
    obtain ⟨hx, hl⟩ := List.forall_mem_cons.mp h
    obtain ⟨m₁, hone⟩ := hx m
    rw [run_forM_cons, run_bind_of_ok hone]
    exact ih hl m₁

theorem run_discard_of_ok {α : Type} {p : Program ω α} {m m' : Memory ω} {a : α}
    (h : p.run m = (.ok a, m')) : (discard p).run m = (.ok (), m') :=
  run_discard_eq_ok.mpr ⟨a, h⟩

/-- Calls that leave the vertices alone leave them alone together. -/
theorem Only.run_quiet {α : Type} {p : Program ω α} (hp : p.Only Call.Quiet) (m : Memory ω)
    (g : GraphId) : ((p.run m).2.store.graph g).clusters = (m.store.graph g).clusters := by
  apply hp.run (I := fun _ m' => (m'.store.graph g).clusters = (m.store.graph g).clusters)
    (h := []) _ rfl
  intro _ c m' hc hm'
  exact (Call.perform_quiet hc m' g).1.trans hm'

end Program

/-- Whether the source has an identifier for one more vertex of a graph. -/
def Memory.supplied (m : Memory ω) (g : GraphId) : Bool :=
  (m.ids.drawFree (fun u => (m.store.graph g).taken ⟨u⟩)
    ((m.store.graph g).clusters.size + (m.store.graph g).retired.size)).isSome

namespace Memory

variable {m : Memory ω} {e : Edge} {w : ω}

theorem mergeable_ends {x y : Cluster ω} (hw : Weight.storable w = true)
    (hne : e.link.src ≠ e.link.dst) (hsrc : (m.store.graph e.graph).cluster? e.link.src = some x)
    (hdst : (m.store.graph e.graph).cluster? e.link.dst = some y) :
    mergeable m.store e.src e.dst w = .ok (x, y) := by
  have hends : e.src ≠ e.dst := fun h => hne (congrArg VertexKey.vertex h)
  have hx : m.store.cluster? e.src = some x := hsrc
  have hy : m.store.cluster? e.dst = some y := hdst
  have hcheck : Store.checkWeight w = .ok () := by
    rw [Store.checkWeight, if_pos hw]
  have hgraph : ¬ e.src.graph ≠ e.dst.graph := not_not_intro rfl
  unfold mergeable
  rw [if_neg hgraph, if_neg hends, hcheck, hx, hy]
  rfl

theorem merge_of_drawn {x y : Cluster ω} {u : Uuid} {ids : IdSource} (hw : Weight.storable w = true)
    (hne : e.link.src ≠ e.link.dst) (hsrc : (m.store.graph e.graph).cluster? e.link.src = some x)
    (hdst : (m.store.graph e.graph).cluster? e.link.dst = some y)
    (hdraw : m.ids.drawFree (fun u => (m.store.graph e.graph).taken ⟨u⟩)
      ((m.store.graph e.graph).clusters.size + (m.store.graph e.graph).retired.size) =
        some (u, ids)) :
    m.merge e.src e.dst w = (.ok ⟨e.graph, ⟨u⟩⟩,
      ⟨m.store.setGraph e.graph ((m.store.graph e.graph).adjoin ⟨u⟩ x y w), ids⟩) := by
  rw [merge, mergeable_ends hw hne hsrc hdst]
  dsimp only [Edge.src]
  rw [hdraw]

theorem merge_of_supplied (hw : Weight.storable w = true) (hne : e.link.src ≠ e.link.dst)
    (hsrc : (m.store.graph e.graph).live e.link.src = true)
    (hdst : (m.store.graph e.graph).live e.link.dst = true) (hids : m.supplied e.graph = true) :
    ∃ k m', m.merge e.src e.dst w = (.ok k, m') := by
  obtain ⟨x, hx⟩ := Graph.live_iff.mp hsrc
  obtain ⟨y, hy⟩ := Graph.live_iff.mp hdst
  obtain ⟨⟨u, ids⟩, hdraw⟩ := Option.isSome_iff_exists.mp hids
  exact ⟨_, _, merge_of_drawn hw hne hx hy hdraw⟩

end Memory

namespace Drain

open Program

variable {m m₁ : Memory ω} {g : GraphId} {t w : ω} {e : Edge} {v k : VertexId}

omit [Weight ω] in
/-- The edge between different vertices is known without a call. -/
theorem edgeWithin_eq {l : Link} (hl : Link.between? v k = some l) (g : GraphId) :
    (edgeWithin g v k : Program ω Edge) = pure ⟨g, l⟩ := by
  rw [edgeWithin, Edge.between, if_neg (not_not_intro rfl)]
  dsimp only
  rw [hl]
  rfl

theorem run_edgeWithin (h : (Link.between? v k).isSome = true) (m : Memory ω) :
    ∃ l, (edgeWithin g v k).run m = (.ok ⟨g, l⟩, m) := by
  obtain ⟨l, hl⟩ := Option.isSome_iff_exists.mp h
  exact ⟨l, congrArg (run · m) (edgeWithin_eq hl g)⟩

theorem run_putEdge_storable (e : Edge) (hw : Weight.storable w = true) (m : Memory ω) :
    ∃ m', (putEdge e w).run m = (.ok (), m') := by
  rw [run_putEdge, (Store.putEdge_eq_ok (e := e)).mpr ⟨hw, rfl⟩]
  exact ⟨_, rfl⟩

theorem run_putEdge_refused (e : Edge) (hw : Weight.storable w = false) (m : Memory ω) :
    (putEdge e w).run m = (.error (.store (.invalidWeight w)), m) := by
  have hput : m.store.putEdge e w = .error (.invalidWeight w) := by
    rw [Store.putEdge, Store.checkWeight, hw]
    rfl
  rw [run_putEdge, hput]

theorem run_putLinks_storable {links : List (VertexId × ω)}
    (h : ∀ p ∈ links, Weight.storable p.2 = true ∧ (Link.between? k p.1).isSome = true)
    (m : Memory ω) : ∃ m',
      (links.forM fun p => do putEdge (← edgeWithin g k p.1) p.2).run m = (.ok (), m') := by
  apply run_forM_ok
  intro p hp m
  obtain ⟨hw, hk⟩ := h p hp
  obtain ⟨l, hl⟩ := run_edgeWithin (g := g) hk m
  rw [run_bind_of_ok hl]
  exact run_putEdge_storable _ hw m

theorem run_putLinks_refused {links : List (VertexId × ω)}
    (hk : ∀ p ∈ links, (Link.between? k p.1).isSome = true)
    (h : ∃ p ∈ links, Weight.storable p.2 = false) (m : Memory ω) :
    ∃ p ∈ links, Weight.storable p.2 = false ∧ ∃ m',
      (links.forM fun p => do putEdge (← edgeWithin g k p.1) p.2).run m =
        (.error (.store (.invalidWeight p.2)), m') := by
  -- The links before the first refused weight are put; their order is that of the list.
  induction links generalizing m with
  | nil =>
    obtain ⟨p, hp, -⟩ := h
    cases hp
  | cons p links ih =>
    obtain ⟨hp, hrest⟩ := List.forall_mem_cons.mp hk
    obtain ⟨l, hl⟩ := run_edgeWithin (g := g) hp m
    rw [run_forM_cons]
    cases hw : Weight.storable p.2 with
    | false =>
      refine ⟨p, List.mem_cons_self, hw, m, ?_⟩
      rw [run_bind, run_bind_of_ok hl, run_putEdge_refused _ hw]
    | true =>
      have hlater : ∃ q ∈ links, Weight.storable q.2 = false := by
        obtain ⟨q, hq, hrefused⟩ := h
        rcases List.mem_cons.mp hq with rfl | hq
        · rw [hw] at hrefused
          cases hrefused
        · exact ⟨q, hq, hrefused⟩
      obtain ⟨m₁, hput⟩ := run_putEdge_storable ⟨g, l⟩ hw m
      obtain ⟨q, hq, hrefused, m', hend⟩ := ih hrest hlater m₁
      refine ⟨q, List.mem_cons_of_mem p hq, hrefused, m', ?_⟩
      rw [run_bind_of_ok ((run_bind_of_ok hl _).trans hput)]
      exact hend

omit [Weight ω] in
theorem putLinks_quiet (g : GraphId) (k : VertexId) (links : List (VertexId × ω)) :
    (links.forM fun p => do putEdge (← edgeWithin g k p.1) p.2 : Program ω Unit).Only
      Call.Quiet := by
  apply only_forM
  intro p _
  apply Only.bind
  · unfold edgeWithin ofStore
    split <;> exact only_done _
  · exact fun _ => only_call trivial

theorem clusters_putLinks (g : GraphId) (k : VertexId) (links : List (VertexId × ω)) (m : Memory ω)
    (h : GraphId) : (((links.forM fun p => do putEdge (← edgeWithin g k p.1) p.2 :
      Program ω Unit).run m).2.store.graph h).clusters = (m.store.graph h).clusters :=
  Only.run_quiet (putLinks_quiet g k links) m h

theorem run_removeEdge (e : Edge) (m : Memory ω) :
    ∃ m', (discard (removeEdge e)).run m = (.ok (), m') :=
  ⟨_, run_discard_of_ok (rfl : (removeEdge e).run m = (.ok _, _))⟩

theorem run_removeVertex (k : VertexKey) (m : Memory ω) :
    ∃ m', (discard (removeVertex k)).run m = (.ok (), m') :=
  ⟨_, run_discard_of_ok (rfl : (removeVertex k).run m = (.ok _, _))⟩

theorem run_unlink {others : List VertexId}
    (h : ∀ u ∈ others, (Link.between? v u).isSome = true) (m : Memory ω) :
    ∃ m', (unlink g v others).run m = (.ok (), m') := by
  apply run_forM_ok
  intro u hu m
  obtain ⟨l, hl⟩ := run_edgeWithin (g := g) (h u hu) m
  rw [run_bind_of_ok hl]
  exact run_removeEdge _ m

/-- What is left once the links between `v` and some vertices are removed does not depend on the
order. -/
theorem run_unlink_perm {others others' : List VertexId} (hperm : others.Perm others')
    (h : ∀ u ∈ others, (Link.between? v u).isSome = true) (m : Memory ω) :
    (unlink g v others).run m = (unlink g v others').run m := by
  have hone {u : VertexId} {l : Link} (hl : Link.between? v u = some l) (m : Memory ω) :
      ((do discard (removeEdge (← edgeWithin g v u))) : Program ω Unit).run m =
        (.ok (), ⟨(m.store.removeEdge ⟨g, l⟩).2, m.ids⟩) := by
    rw [edgeWithin_eq hl, pure_bind]
    rfl
  unfold unlink
  induction hperm generalizing m with
  | nil => rfl
  | cons u _ ih =>
    obtain ⟨hu, hrest⟩ := List.forall_mem_cons.mp h
    obtain ⟨l, hl⟩ := Option.isSome_iff_exists.mp hu
    rw [run_forM_cons, run_forM_cons, run_bind_of_ok (hone hl m), run_bind_of_ok (hone hl m)]
    exact ih hrest _
  | swap u u' l =>
    obtain ⟨hu', hrest⟩ := List.forall_mem_cons.mp h
    obtain ⟨hu, -⟩ := List.forall_mem_cons.mp hrest
    obtain ⟨k, hk⟩ := Option.isSome_iff_exists.mp hu
    obtain ⟨k', hk'⟩ := Option.isSome_iff_exists.mp hu'
    simp only [run_forM_cons, run_bind_of_ok (hone hk _), run_bind_of_ok (hone hk' _)]
    rw [Store.removeEdge_comm]
  | trans hleft _ ihleft ihright =>
    exact (ihleft h m).trans (ihright (fun u hu => h u (hleft.mem_iff.mpr hu)) m)

theorem run_step_of_lightest (ht : Weight.bounding t = true)
    (hlightest : m.store.lightest? e.graph = some (e, w)) (hw : Weight.lt w t = true)
    (hsrc : (m.store.graph e.graph).live e.link.src = true)
    (hdst : (m.store.graph e.graph).live e.link.dst = true) :
    (step e.graph t).run m = (merge e w).run m := by
  have hread : (lightest? e.graph).run m = (.ok (some (e, w)), m) := by
    rw [← hlightest]
    rfl
  unfold step
  rw [checkThreshold, if_pos ht, pure_bind, run_bind_of_ok hread]
  dsimp only
  rw [hw, Bool.not_true, if_neg (by decide), run_bind_of_ok (run_live m e.src), Edge.src, hsrc,
    if_pos rfl, run_bind_of_ok (run_live m e.dst), Edge.dst, hdst, if_pos rfl]

theorem run_step_stops (ht : Weight.bounding t = true)
    (h : ∀ e w, m.store.lightest? g = some (e, w) → Weight.lt w t = false) :
    ∃ stop, (step g t).run m = (.ok (.done stop), m) := by
  have hread : (lightest? g).run m = (.ok (m.store.lightest? g), m) := rfl
  unfold step
  rw [checkThreshold, if_pos ht, pure_bind, run_bind_of_ok hread]
  cases hlightest : m.store.lightest? g with
  | none => exact ⟨.exhausted, rfl⟩
  | some p =>
    obtain ⟨e, w⟩ := p
    dsimp only
    rw [h e w hlightest, Bool.not_false, if_pos rfl]
    exact ⟨.thresholdReached w, rfl⟩

/-- Once the union is made, a merge replaces its parts by it. -/
theorem run_merge_of_union {k : VertexKey} (hmerge : m.merge e.src e.dst w = (.ok k, m₁)) :
    (merge e w).run m = (do
      replaceParts e k.vertex ((m.store.graph e.graph).relinks e.link w)
        (((m.store.graph e.graph).neighbors e.link.src).erase e.link.dst)
        (((m.store.graph e.graph).neighbors e.link.dst).erase e.link.src)
      return .merged ⟨e.src, e.dst, k, w, ((m.store.graph e.graph).relinks e.link w).size⟩ :
        Program ω (Step ω)).run m₁ := by
  unfold merge
  rw [run_bind_of_ok (run_neighbors m e.src), run_bind_of_ok (run_neighbors m e.dst)]
  change Program.run (.ask _ _) m = _
  rw [run_ask]
  simp only [Call.perform, hmerge]
  rfl

/-- The union is not linked to itself. -/
theorem relinks_apart (hc : (m.store.graph e.graph).Contracts e.link k) :
    ∀ p ∈ ((m.store.graph e.graph).relinks e.link w).toList,
      (Link.between? k p.1).isSome = true := by
  intro p hp
  have hget := SortedMap.mem_toList.mp hp
  have hne : k ≠ p.1 := by
    intro hk
    rw [← hk, hc.get?_relinks hc.notSrc.symm hc.notDst.symm, Graph.distance?_comm, hc.unlinked,
      Graph.distance?_comm, hc.unlinked] at hget
    cases hget
  obtain ⟨l, hl⟩ := Link.exists_between? hne
  rw [hl]
  rfl

theorem bystanders_apart (h : (m.store.graph e.graph).edges.Coherent) (v other : VertexId) :
    ∀ u ∈ SortedMap.keys (((m.store.graph e.graph).neighbors v).erase other),
      (Link.between? v u).isSome = true := by
  intro u hu
  obtain ⟨-, hlinked⟩ := (Graph.mem_bystanders h).mp hu
  have hne : v ≠ u := by
    rintro rfl
    rw [Graph.distance?_self] at hlinked
    cases hlinked
  obtain ⟨l, hl⟩ := Link.exists_between? hne
  rw [hl]
  rfl

theorem run_replaceParts_storable (hc : (m.store.graph e.graph).Contracts e.link k)
    (hall : ∀ p ∈ ((m.store.graph e.graph).relinks e.link w).toList, Weight.storable p.2 = true)
    (m₁ : Memory ω) : ∃ m', (replaceParts e k ((m.store.graph e.graph).relinks e.link w)
      (((m.store.graph e.graph).neighbors e.link.src).erase e.link.dst)
      (((m.store.graph e.graph).neighbors e.link.dst).erase e.link.src)).run m₁ = (.ok (), m') := by
  have hput : ∀ p ∈ ((m.store.graph e.graph).relinks e.link w).toList,
      Weight.storable p.2 = true ∧ (Link.between? k p.1).isSome = true :=
    fun p hp => ⟨hall p hp, relinks_apart hc p hp⟩
  have hapart := bystanders_apart (e := e) hc.canonical.coherent
  obtain ⟨m₂, h₂⟩ := run_putLinks_storable (g := e.graph) hput m₁
  obtain ⟨m₃, h₃⟩ := run_unlink (g := e.graph) (hapart e.link.src e.link.dst) m₂
  obtain ⟨m₄, h₄⟩ := run_unlink (g := e.graph) (hapart e.link.dst e.link.src) m₃
  obtain ⟨m₅, h₅⟩ := run_removeEdge e m₄
  obtain ⟨m₆, h₆⟩ := run_removeVertex e.src m₅
  obtain ⟨m₇, h₇⟩ := run_removeVertex e.dst m₆
  unfold replaceParts
  rw [run_bind_of_ok h₂, run_bind_of_ok h₃, run_bind_of_ok h₄, run_bind_of_ok h₅, run_bind_of_ok h₆]
  exact ⟨m₇, h₇⟩

/-- A merge whose new weights are all accepted is carried through. -/
theorem run_merge_of_contracts {k : VertexKey} (hmerge : m.merge e.src e.dst w = (.ok k, m₁))
    (hc : (m.store.graph e.graph).Contracts e.link k.vertex)
    (hall : ∀ p ∈ ((m.store.graph e.graph).relinks e.link w).toList, Weight.storable p.2 = true) :
    ∃ m', (merge e w).run m = (.ok (.merged ⟨e.src, e.dst, k, w,
      ((m.store.graph e.graph).relinks e.link w).size⟩), m') := by
  obtain ⟨m', hreplace⟩ := run_replaceParts_storable hc hall m₁
  rw [run_merge_of_union hmerge, run_bind_of_ok hreplace]
  exact ⟨m', rfl⟩

section Anchored

variable (anchored : (m.store.graph e.graph).Anchored)
  (hl : (m.store.graph e.graph).edges.weight? e.link = some w)
  (hw : Weight.storable w = true) (hids : m.supplied e.graph = true)
include anchored hl hw hids

theorem exists_union : ∃ x y k m₁, m.merge e.src e.dst w = (.ok k, m₁) ∧
    m.Joins e.src e.dst w x y k ∧ m₁.store = m.store.setGraph e.graph
      ((m.store.graph e.graph).adjoin k.vertex x y w) := by
  obtain ⟨hsrc, hdst⟩ := anchored.live _ _ hl
  obtain ⟨k, m₁, hmerge⟩ :=
    m.merge_of_supplied hw (SortKey.ne_of_lt (anchored.normal _ _ hl)) hsrc hdst hids
  obtain ⟨x, y, hjoins, hstore⟩ := Memory.merge_ok hmerge
  exact ⟨x, y, k, m₁, hmerge, hjoins, hstore⟩

theorem run_merge_storable
    (hall : ∀ p ∈ ((m.store.graph e.graph).relinks e.link w).toList, Weight.storable p.2 = true) :
    ∃ s m', (merge e w).run m = (.ok s, m') := by
  obtain ⟨x, y, k, m₁, hmerge, hjoins, -⟩ := exists_union anchored hl hw hids
  obtain ⟨m', hrun⟩ := run_merge_of_contracts hmerge (anchored.contracts hl hjoins.free) hall
  exact ⟨_, m', hrun⟩

/-- A new weight that is refused abandons the merge when the union is already made: the union and
both parts are live. -/
theorem run_merge_refused
    (hany : ∃ p ∈ ((m.store.graph e.graph).relinks e.link w).toList,
      Weight.storable p.2 = false) :
    ∃ p ∈ ((m.store.graph e.graph).relinks e.link w).toList, Weight.storable p.2 = false ∧
      ∃ m' k, (merge e w).run m = (.error (.store (.invalidWeight p.2)), m') ∧
        (m.store.graph e.graph).live k = false ∧ (m'.store.graph e.graph).live k = true ∧
        (m'.store.graph e.graph).live e.link.src = true ∧
        (m'.store.graph e.graph).live e.link.dst = true := by
  obtain ⟨x, y, k, m₁, hmerge, hjoins, hstore⟩ := exists_union anchored hl hw hids
  have hfree : (m.store.graph e.graph).taken k.vertex = false := hjoins.free
  obtain ⟨hsrc, hdst⟩ := anchored.live _ _ hl
  obtain ⟨p, hp, hrefused, m₂, hput⟩ :=
    run_putLinks_refused (g := e.graph) (relinks_apart (anchored.contracts hl hfree)) hany m₁
  refine ⟨p, hp, hrefused, m₂, k.vertex, ?_, ?_, ?_⟩
  · rw [run_merge_of_union hmerge, run_bind]
    unfold replaceParts
    rw [run_bind, hput]
  · rw [Graph.taken, Bool.or_eq_false_iff] at hfree
    exact hfree.1
  · -- Putting links leaves the vertices as they were when the union had been made.
    have hquiet := clusters_putLinks e.graph k.vertex
      ((m.store.graph e.graph).relinks e.link w).toList m₁ e.graph
    rw [hput, hstore, Store.graph_setGraph, if_pos rfl] at hquiet
    have hlive (v : VertexId) : (m₂.store.graph e.graph).live v = true ↔
        v = k.vertex ∨ (m.store.graph e.graph).live v = true := by
      rw [← Graph.live_adjoin _ _ x y w, Graph.live, hquiet, Graph.live]
    simp [hlive, hsrc, hdst]

end Anchored

/-- After a stop, more steps change nothing. -/
theorem run_steps_of_done {stop : StopReason ω} (h : (step g t).run m = (.ok (.done stop), m))
    (n : Nat) : (steps g t n).run m = (.ok (List.replicate n (.done stop)), m) := by
  induction n with
  | zero => rfl
  | succ n ih =>
    unfold steps
    rw [run_bind_of_ok h, run_bind_of_ok ih]
    rfl

/-- Something holds at every point that the steps of a drain reach. -/
def Throughout (g : GraphId) (t : ω) (m : Memory ω) (P : Memory ω → Prop) : Prop :=
  ∀ n history m', (steps g t n).run m = (.ok history, m') → P m'

def Succeeds (g : GraphId) (t : ω) (m : Memory ω) : Prop := ∃ s, ((step g t).run m).1 = .ok s

theorem not_succeeds {r : Outcome (Error ω) (Step ω)} (h : (step g t).run m = (r, m₁))
    (hr : ∀ s, r ≠ .ok s) : ¬ Succeeds g t m := by
  rintro ⟨s, hs⟩
  rw [h] at hs
  exact hr s hs

section Throughout

variable {P : Memory ω → Prop} {s : Step ω}

theorem Throughout.first (h : Throughout g t m P) : P m := h 0 [] m rfl

theorem throughout_next (h : (step g t).run m = (.ok s, m₁)) :
    Throughout g t m P ↔ P m ∧ Throughout g t m₁ P := by
  constructor
  · intro hm
    refine ⟨hm.first, fun n history m' hsteps => hm (n + 1) (s :: history) m' ?_⟩
    unfold steps
    rw [run_bind_of_ok h, run_bind_of_ok hsteps]
    rfl
  · rintro ⟨hm, hm₁⟩ n history m' hsteps
    cases n with
    | zero =>
      cases hsteps
      exact hm
    | succ n =>
      unfold steps at hsteps
      rw [run_bind_of_ok h, run_bind_eq_ok] at hsteps
      obtain ⟨rest, m₂, hrest, hdone⟩ := hsteps
      cases hdone
      exact hm₁ n rest m' hrest

theorem throughout_stop (h : (step g t).run m = (.ok s, m₁)) (hs : s.state = .done) :
    Throughout g t m P ↔ P m := by
  obtain ⟨stop, rfl, rfl⟩ : ∃ stop, s = .done stop ∧ m₁ = m := by
    cases (run_step_ok h).2 with
    | exhausted => exact ⟨_, rfl, rfl⟩
    | reached => exact ⟨_, rfl, rfl⟩
    | stale => cases hs
    | merged => cases hs
  refine ⟨Throughout.first, fun hm n history m' hsteps => ?_⟩
  rw [run_steps_of_done h] at hsteps
  cases hsteps
  exact hm

theorem throughout_failure (h : ¬ Succeeds g t m) : Throughout g t m P ↔ P m := by
  refine ⟨Throughout.first, fun hm n history m' hsteps => ?_⟩
  cases n with
  | zero =>
    cases hsteps
    exact hm
  | succ n =>
    unfold steps at hsteps
    obtain ⟨s, m₁, hstep, -⟩ := run_bind_eq_ok.mp hsteps
    exact absurd ⟨s, by rw [hstep]⟩ h

end Throughout

theorem run_loop_ok_iff {n : Nat} (merges stale : Nat) (hm : m.Sound)
    (hn : m.store.edgeCount g < n) :
    (∃ r, ((loop g t n merges stale).run m).1 = .ok r) ↔ Throughout g t m (Succeeds g t) := by
  induction n generalizing m merges stale with
  | zero => omega
  | succ n ih =>
    unfold loop
    rw [run_bind]
    rcases hstep : (step g t).run m with ⟨s | cause | _, m₁⟩
    · have hs := (run_step_ok hstep).2
      -- Each step that goes on leaves fewer edges, so the allowance stays above them.
      obtain ⟨hmerge, hstale, hdone⟩ := hs.progress hm
      have hsucceeds : Succeeds g t m := ⟨s, by rw [hstep]⟩
      rw [throughout_next hstep, and_iff_right hsucceeds]
      cases s with
      | merged x =>
        have hless := (hmerge rfl).1
        exact ih _ _ (hs.sound hm) (by omega)
      | stale edge =>
        have hless := (hstale rfl).1
        exact ih _ _ (hs.sound hm) (by omega)
      | done stop =>
        obtain rfl : m₁ = m := hdone rfl
        exact iff_of_true ⟨_, rfl⟩ ((throughout_stop hstep rfl).mpr hsucceeds)
    · apply iff_of_false
      · rintro ⟨_, h⟩
        cases h
      · exact fun h => not_succeeds hstep (fun s h => by cases h) h.first
    · apply iff_of_false
      · rintro ⟨_, h⟩
        cases h
      · exact fun h => not_succeeds hstep (fun s h => by cases h) h.first

theorem run_cluster_ok_iff (hm : m.Sound) (ht : Weight.bounding t = true) :
    (∃ report, (m.cluster g t).1 = .ok report) ↔ Throughout g t m (Succeeds g t) := by
  rw [← run_loop_ok_iff 0 0 hm (Nat.lt_succ_self _), Memory.cluster]
  unfold cluster
  rw [checkThreshold, if_pos ht, pure_bind, run_bind]
  rcases (loop g t (m.store.edgeCount g + 1) 0 0).run m with ⟨⟨merges, stale, stop⟩ | cause | _, m'⟩
  · exact iff_of_true ⟨_, rfl⟩ ⟨_, rfl⟩
  all_goals
    apply iff_of_false <;>
    · rintro ⟨_, h⟩
      cases h

end Drain

end RecordLinkage
