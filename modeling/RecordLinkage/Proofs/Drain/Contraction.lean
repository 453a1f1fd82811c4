import RecordLinkage.Proofs.Drain.Thresholds
import RecordLinkage.Proofs.Drain.Total
import RecordLinkage.Proofs.Program.Kinds
import RecordLinkage.Proofs.Program.Stays

namespace RecordLinkage

variable {ω : Type} [Weight ω]

namespace Graph

variable {G : Graph ω} {l : Link} {w : ω} {x y : Cluster ω} {k v : VertexId}

/-- The vertices other than its ends that a link brings together. -/
def surroundings (G : Graph ω) (l : Link) (w : ω) : Finset VertexId :=
  SortedMap.domain (G.relinks l w)

theorem card_surroundings (G : Graph ω) (l : Link) (w : ω) :
    (G.surroundings l w).card = (G.relinks l w).size := SortedMap.card_domain _

theorem Canonical.mem_surroundings (h : G.Canonical) :
    v ∈ G.surroundings l w ↔ v ≠ l.src ∧ v ≠ l.dst ∧
      ((G.distance? l.src v).isSome = true ∨ (G.distance? l.dst v).isSome = true) := by
  rw [surroundings, SortedMap.mem_domain]
  by_cases hends : v = l.src ∨ v = l.dst
  · rw [h.get?_relinks_end hends]
    rcases hends with rfl | rfl <;> simp
  · rw [not_or] at hends
    rw [h.get?_relinks, if_neg (Ne.symm hends.1), if_neg (Ne.symm hends.2), isSome_linkage]
    simp [hends.1, hends.2]

theorem Canonical.weight?_eq_some (h : G.Canonical) {w' : ω} :
    G.edges.weight? l = some w' ↔
      Link.between? l.src l.dst = some l ∧ G.distance? l.src l.dst = some w' := by
  constructor
  · intro hl
    exact ⟨Link.between?_ends (h.normal l w' hl), h.distance?_ends hl⟩
  · rintro ⟨hl, hd⟩
    rwa [distance?_of_between? hl] at hd

/-- The links after a contraction: the old ones that touch no part, and one between the union and
each neighbour of a part. -/
theorem Contracts.weight?_contract (h : G.Contracts l k) {l' : Link} {w' : ω} :
    (G.contract l w x y k).edges.weight? l' = some w' ↔
      (l'.src ≠ l.src ∧ l'.src ≠ l.dst) ∧ (l'.dst ≠ l.src ∧ l'.dst ≠ l.dst) ∧
          G.edges.weight? l' = some w' ∨
        ∃ v ∈ G.surroundings l w, Link.between? k v = some l' ∧
          linkage (G.distance? l.src v) (G.distance? l.dst v) w = some w' := by
  have hafter : (G.contract l w x y k).Canonical := h.canonical.contract l w x y k
  have hmem {v : VertexId} (hsrc : v ≠ l.src) (hdst : v ≠ l.dst)
      (hw : linkage (G.distance? l.src v) (G.distance? l.dst v) w = some w') :
      v ∈ G.surroundings l w := by
    refine h.canonical.mem_surroundings.mpr ⟨hsrc, hdst, (isSome_linkage _ _ w).mp ?_⟩
    rw [hw]
    rfl
  constructor
  · intro hl'
    obtain ⟨hbetween, hd⟩ := hafter.weight?_eq_some.mp hl'
    -- A link of the new graph ends at the union on either side, or it is an old one.
    obtain ⟨hs, hd', hcase⟩ := h.distance?_eq_some hd
    rcases hcase with ⟨hk, -, hlinkage⟩ | ⟨-, hk, hlinkage⟩ | ⟨-, -, hold⟩
    · refine .inr ⟨l'.dst, hmem hd'.1 hd'.2 hlinkage, ?_, hlinkage⟩
      rw [← hk, hbetween]
    · refine .inr ⟨l'.src, hmem hs.1 hs.2 hlinkage, ?_, hlinkage⟩
      rw [← hk, Link.between?_comm, hbetween]
    · exact .inl ⟨hs, hd', h.canonical.weight?_eq_some.mpr ⟨hbetween, hold⟩⟩
  · rintro (⟨hs, hd, hold⟩ | ⟨v, hv, hbetween, hlinkage⟩)
    · obtain ⟨hbetween, hdist⟩ := h.canonical.weight?_eq_some.mp hold
      have hunlinked (u : VertexId) (hu : G.distance? u l'.dst = some w' ∨
          G.distance? l'.src u = some w') : u ≠ k := by
        rintro rfl
        rcases hu with hu | hu
        · rw [h.unlinked] at hu
          cases hu
        · rw [distance?_comm, h.unlinked] at hu
          cases hu
      refine hafter.weight?_eq_some.mpr ⟨hbetween, ?_⟩
      rw [h.distance?_other (hunlinked _ (.inl hdist)) (hunlinked _ (.inr hdist)) hs hd, hdist]
    · obtain ⟨hsrc, hdst, -⟩ := h.canonical.mem_surroundings.mp hv
      have hunion := h.distance?_union (x := x) (y := y) (w := w) (Link.ne_of_between? hbetween)
        hsrc.symm hdst.symm
      rwa [distance?_of_between? hbetween, hlinkage] at hunion

end Graph

theorem Call.ids_perform {c : Call ω} (h : c.kind ≠ .merge) (m : Memory ω) :
    (c.perform m).2.ids = m.ids := by
  cases c with
  | merge => exact absurd rfl h
  | putEdge e w =>
    simp only [perform]
    split <;> rfl
  | _ => rfl

theorem Program.Makes.ids_run {α : Type} {kinds : List CallKind} {p : Program ω α}
    (hp : p.Makes kinds) (h : .merge ∉ kinds) (m : Memory ω) : (p.run m).2.ids = m.ids := by
  refine hp.run (I := fun _ m' => m'.ids = m.ids) (h := []) ?_ rfl
  intro _ c m' hc hm'
  exact (Call.ids_perform (fun hmerge => h (hmerge ▸ hc)) m').trans hm'

namespace Drain

open Program

variable {m m' : Memory ω} {e : Edge} {t w : ω} {u : Uuid} {ids : IdSource}

theorem ids_run_merge {k : VertexKey} {m₁ : Memory ω}
    (hmerge : m.merge e.src e.dst w = (.ok k, m₁)) : ((merge e w).run m).2.ids = m₁.ids := by
  rw [run_merge_of_union hmerge]
  generalize (m.store.graph e.graph).relinks e.link w = links
  have hmakes : (do
      replaceParts e k.vertex links
        (((m.store.graph e.graph).neighbors e.link.src).erase e.link.dst)
        (((m.store.graph e.graph).neighbors e.link.dst).erase e.link.src)
      return .merged ⟨e.src, e.dst, k, w, links.size⟩ : Program ω (Step ω)).Makes
        [.putEdge, .removeEdge, .removeVertex] :=
    (replaceParts_makes _ _ _ _ _).bind fun _ => only_done _
  exact hmakes.ids_run (by decide) m₁

end Drain

open Drain

/-- A merging step is an edge contraction. The lightest edge of a graph in normal form is below the
threshold, both of its ends are live, the identifier that is drawn is no end of an edge, and sums are
finite. Then the ends become one vertex: it is as wide as the edge was long, has the members of both,
and is linked to their neighbours at the linkage of the old weights. All else stays as it was. -/
theorem step_contracts_edge [LawfulWeight ω] {m : Memory ω} {g : GraphId} {e : Edge} {t w : ω}
    {u : Uuid} {ids : IdSource} (hcanonical : (m.store.graph g).Canonical)
    (hsound : (m.store.graph g).edges.Sound) (ht : Weight.bounding t = true)
    (hlightest : m.store.lightest? g = some (e, w)) (hw : Weight.lt w t = true)
    (hsrc : m.store.live e.src = true) (hdst : m.store.live e.dst = true)
    (hdraw : m.ids.drawFree (fun u => (m.store.graph g).taken ⟨u⟩)
      ((m.store.graph g).clusters.size + (m.store.graph g).retired.size) = some (u, ids))
    (hapart : ∀ l w', (m.store.graph g).edges.weight? l = some w' → l.src ≠ ⟨u⟩ ∧ l.dst ≠ ⟨u⟩)
    (hfinite : ∀ v p, v ≠ e.link.src → v ≠ e.link.dst →
      (m.store.graph g).distance? e.link.src v = some p ∨
        (m.store.graph g).distance? e.link.dst v = some p → Weight.finite (Weight.add p w) = true) :
    ∃ m' x y, ∃ N : Finset VertexId,
      (∀ v, v ∈ N ↔ v ≠ e.link.src ∧ v ≠ e.link.dst ∧
        (((m.store.graph g).distance? e.link.src v).isSome = true ∨
          ((m.store.graph g).distance? e.link.dst v).isSome = true)) ∧
      m.step g t = (.ok (.merged ⟨e.src, e.dst, ⟨g, ⟨u⟩⟩, w, N.card⟩), m') ∧
      m.store.cluster? e.src = some x ∧ m.store.cluster? e.dst = some y ∧
      (∀ v c, m'.store.cluster? ⟨g, v⟩ = some c ↔
        v = ⟨u⟩ ∧ c = ⟨w, SortedSet.union x.members y.members⟩ ∨
          v ≠ ⟨u⟩ ∧ v ≠ e.link.src ∧ v ≠ e.link.dst ∧ m.store.cluster? ⟨g, v⟩ = some c) ∧
      (∀ v, v ∈ (m'.store.graph g).retired ↔
        v = e.link.dst ∨ v = e.link.src ∨ v ∈ (m.store.graph g).retired) ∧
      (∀ l w', (m'.store.graph g).edges.weight? l = some w' ↔
        (l.src ≠ e.link.src ∧ l.src ≠ e.link.dst) ∧ (l.dst ≠ e.link.src ∧ l.dst ≠ e.link.dst) ∧
            (m.store.graph g).edges.weight? l = some w' ∨
          ∃ v ∈ N, Link.between? ⟨u⟩ v = some l ∧
            linkage ((m.store.graph g).distance? e.link.src v)
              ((m.store.graph g).distance? e.link.dst v) w = some w') ∧
      (m'.store.graph g).Canonical ∧
      (∀ h, g ≠ h → m'.store.part h = m.store.part h) ∧ m'.ids = ids := by
  obtain rfl := lightest?_graph hlightest
  have hl := (hcanonical.coherent.lightest (lightest?_edges hlightest)).1
  have hnormal := hcanonical.normal _ _ hl
  have hstorable := hsound.storable _ _ hl
  obtain ⟨x, hx⟩ := Graph.live_iff.mp hsrc
  obtain ⟨y, hy⟩ := Graph.live_iff.mp hdst
  have hfree : (m.store.graph e.graph).taken ⟨u⟩ = false := (IdSource.drawFree_spec hdraw).1
  have hunlinked (z : VertexId) : (m.store.graph e.graph).distance? ⟨u⟩ z = none := by
    refine Option.eq_none_iff_forall_ne_some.mpr fun p hp => ?_
    obtain ⟨l, hl, hp⟩ := Option.bind_eq_some_iff.mp hp
    obtain ⟨hs, hd⟩ := hapart l p hp
    rcases (Link.between?_spec hl).2 with ⟨h, -⟩ | ⟨-, h⟩
    · exact hs h
    · exact hd h
  have hc : (m.store.graph e.graph).Contracts e.link ⟨u⟩ := ⟨hcanonical, hnormal,
    Graph.ne_of_not_taken hfree hsrc, Graph.ne_of_not_taken hfree hdst, hunlinked⟩
  -- The weights that the union gets are stored, because the sums in them are finite.
  have hall : ∀ p ∈ ((m.store.graph e.graph).relinks e.link w).toList,
      Weight.storable p.2 = true := by
    intro p hp
    have hget := SortedMap.mem_toList.mp hp
    obtain ⟨hs, hd, -⟩ := hcanonical.mem_surroundings.mp
      (SortedMap.mem_domain.mpr (by rw [hget]; rfl) : p.1 ∈ Graph.surroundings _ e.link w)
    rw [hc.get?_relinks hs.symm hd.symm] at hget
    exact Weight.storable_linkage hstorable
      (fun q hq => ⟨Graph.storable_distance? hsound hq, hfinite p.1 q hs hd (.inl hq)⟩)
      (fun q hq => ⟨Graph.storable_distance? hsound hq, hfinite p.1 q hs hd (.inr hq)⟩) hget
  have hmerge := Memory.merge_of_drawn hstorable (SortKey.ne_of_lt hnormal) hx hy hdraw
  obtain ⟨m', hrun⟩ := run_merge_of_contracts hmerge hc hall
  have hstep : m.step e.graph t = _ := (run_step_of_lightest ht hlightest hw hsrc hdst).trans hrun
  -- What the run left is read off the contraction, once for each part of the graph.
  obtain ⟨x', y', k, hjoins, -, hbecomes, hk⟩ := run_merge_ok hsrc hdst hrun
  cases hk
  cases hx.symm.trans hjoins.left
  cases hy.symm.trans hjoins.right
  have hgraph := hbecomes.graph
  refine ⟨m', x, y, (m.store.graph e.graph).surroundings e.link w,
    fun v => hcanonical.mem_surroundings, ?_, hx, hy, ?_, ?_, ?_, ?_, ?_, ?_⟩
  · rw [hstep, Graph.card_surroundings]
  · intro v c
    rw [Store.cluster?, hgraph]
    exact Graph.cluster?_contract_iff hx hy hfree
  · intro v
    rw [hgraph]
    exact Graph.mem_retired_contract _ _ _ _ _ _ _
  · intro l w'
    rw [hgraph]
    exact hc.weight?_contract
  · rw [hgraph]
    exact hcanonical.contract _ _ _ _ _
  · intro h hg
    have hpart := (step_stays e.graph t).part_run m hg
    rwa [show (step e.graph t).run m = _ from hstep] at hpart
  · have hids := ids_run_merge hmerge
    rwa [hrun] at hids

def Step.relinked? : Step ω → Option Nat
  | .merged x => some x.relinked
  | _ => none

def unevenPathReady : Memory Binary64 :=
  ⟨(∅ : Store Binary64).setGraph ⟨⟨1⟩⟩ unevenPath, ⟨[⟨5⟩], 0⟩⟩

/-- Its first two entities become one, which is linked to the third at 0.09. -/
theorem unevenPath_contracts :
    let e : Edge := ⟨⟨⟨1⟩⟩, ⟨⟨⟨1⟩⟩, ⟨⟨2⟩⟩⟩⟩
    let w : Binary64 := .ofDecimal false ⟨3, -2⟩
    (unevenPathReady.store.graph ⟨⟨1⟩⟩).Canonical ∧
      Weight.bounding defaultThreshold = true ∧
      unevenPathReady.store.lightest? ⟨⟨1⟩⟩ = some (e, w) ∧ Weight.lt w defaultThreshold = true ∧
      ∃ m', unevenPathReady.step ⟨⟨1⟩⟩ defaultThreshold =
          (.ok (.merged ⟨e.src, e.dst, ⟨⟨⟨1⟩⟩, ⟨.random 5⟩⟩, w, 1⟩), m') ∧
        (∀ v, v ∈ (m'.store.graph ⟨⟨1⟩⟩).retired ↔ v = e.link.dst ∨ v = e.link.src ∨
          v ∈ (unevenPathReady.store.graph ⟨⟨1⟩⟩).retired) := by
  intro e w
  have hgraph : unevenPathReady.store.graph ⟨⟨1⟩⟩ = unevenPath := by
    rw [unevenPathReady, Store.graph_setGraph, if_pos rfl]
  have hintact : (unevenPathReady.store.graph ⟨⟨1⟩⟩).Intact := by
    rw [hgraph]
    exact unevenPath_intact
  have ht : Weight.bounding defaultThreshold = true := by decide +kernel
  have hlightest : unevenPathReady.store.lightest? ⟨⟨1⟩⟩ = some (e, w) := by decide +kernel
  have hw : Weight.lt w defaultThreshold = true := by decide +kernel
  have hends : unevenPathReady.store.live e.src = true ∧ unevenPathReady.store.live e.dst = true := by
    decide +kernel
  have hdraw : unevenPathReady.ids.drawFree
      (fun u => (unevenPathReady.store.graph ⟨⟨1⟩⟩).taken ⟨u⟩)
      ((unevenPathReady.store.graph ⟨⟨1⟩⟩).clusters.size +
        (unevenPathReady.store.graph ⟨⟨1⟩⟩).retired.size) = some (.random 5, ⟨[], 0⟩) := by
    decide +kernel
  have hfree := (IdSource.drawFree_spec hdraw).1
  have hsums : ∀ l p, (unevenPathReady.store.graph ⟨⟨1⟩⟩).edges.weight? l = some p →
      Weight.finite (Weight.add p w) = true := by
    rw [hgraph]
    apply EdgeIndex.forall_weight?_put (Q := fun _ p => Weight.finite (Weight.add p w) = true)
    · apply EdgeIndex.forall_weight?_put (Q := fun _ p => Weight.finite (Weight.add p w) = true)
      · simp only [Graph.edges_ensure]
        exact fun _ _ h => by cases h
      · decide +kernel
    · decide +kernel
  obtain ⟨m', x, y, N, -, hstep, -, -, -, hretired, -⟩ := step_contracts_edge hintact.toCanonical
    hintact.sound ht hlightest hw hends.1 hends.2 hdraw
    (fun l p hl => (hintact.live l p hl).imp (fun h => (Graph.ne_of_not_taken hfree h).symm)
      fun h => (Graph.ne_of_not_taken hfree h).symm)
    (fun v p _ _ hp => by
      rcases hp with hp | hp <;> obtain ⟨l, -, hl⟩ := Option.bind_eq_some_iff.mp hp <;>
        exact hsums l p hl)
  have hone : (unevenPathReady.step ⟨⟨1⟩⟩ defaultThreshold).1.meets
      (fun s => decide (s.relinked? = some 1)) = true := by decide +kernel
  rw [hstep] at hone
  have hcard : N.card = 1 := Option.some.inj (of_decide_eq_true hone)
  rw [hcard] at hstep
  exact ⟨hintact.toCanonical, ht, hlightest, hw, m', hstep, hretired⟩

end RecordLinkage
