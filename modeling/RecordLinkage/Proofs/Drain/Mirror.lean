import RecordLinkage.Proofs.Drain.Ties
import RecordLinkage.Proofs.Graph.Mirror
import Mathlib.Data.Sym.Sym2

namespace RecordLinkage

open Binary64

/-- A merge as it is seen without identifiers: the members of the two clusters, the weight at which
they were joined, and how many neighbours were linked to their union. -/
structure Fusion where
  parts : Sym2 (Option (SortedSet EntityKey))
  weight : Binary64
  relinked : Nat

def Fusion.Same (f f' : Fusion) : Prop :=
  f.parts = f'.parts ∧ f.weight.same f'.weight = true ∧ f.relinked = f'.relinked

def Merge.fusion (x : Merge Binary64) (m : Memory Binary64) : Fusion where
  parts := s((m.store.cluster? x.a).map Cluster.members, (m.store.cluster? x.b).map Cluster.members)
  weight := x.weight
  relinked := x.relinked

def StopReason.Same : StopReason Binary64 → StopReason Binary64 → Prop
  | .exhausted, .exhausted => True
  | .thresholdReached w, .thresholdReached w' => w.same w' = true
  | _, _ => False

namespace Drain

open Program

def fusions (g : GraphId) (t : Binary64) : Nat → Memory Binary64 → List Fusion
  | 0, _ => []
  | n + 1, m =>
    match (step g t).run m with
    | (.ok (.merged x), m₁) => x.fusion m :: fusions g t n m₁
    | (.ok (.stale _), m₁) => fusions g t n m₁
    | _ => []

variable {m m' m₁ : Memory Binary64} {g g' : GraphId} {t : Binary64} {s : Step Binary64}
  {σ : Equiv.Perm VertexId} {n : Nat}

theorem fusions_of_merged {x : Merge Binary64} (h : (step g t).run m = (.ok (.merged x), m₁)) :
    fusions g t (n + 1) m = x.fusion m :: fusions g t n m₁ := by
  rw [fusions, h]

theorem fusions_of_done {stop : StopReason Binary64}
    (h : (step g t).run m = (.ok (.done stop), m₁)) : fusions g t n m = [] := by
  cases n with
  | zero => rfl
  | succ n => rw [fusions, h]

theorem fusion_of_joins {a b k : VertexKey} {w : Binary64} {x y : Cluster Binary64}
    (h : m.Joins a b w x y k) (n : Nat) : Merge.fusion ⟨a, b, k, w, n⟩ m =
      ⟨s(some x.members, some y.members), w, n⟩ := by
  have hleft : m.store.cluster? a = some x := h.left
  have hright : m.store.cluster? b = some y := by
    rw [Store.cluster?, h.sameGraph]
    exact h.right
  rw [Merge.fusion, hleft, hright]
  rfl

theorem fusion_same {e f : Edge} {w w' : Binary64} {x y x' y' : Cluster Binary64}
    {k k' : VertexKey} (h : (m.store.graph e.graph).Counterparts σ (m'.store.graph f.graph)
      e.link f.link w w') (joins : m.Joins e.src e.dst w x y k)
    (joins' : m'.Joins f.src f.dst w' x' y' k') :
    (Merge.fusion ⟨e.src, e.dst, k, w, ((m.store.graph e.graph).relinks e.link w).size⟩ m).Same
      (Merge.fusion
        ⟨f.src, f.dst, k', w', ((m'.store.graph f.graph).relinks f.link w').size⟩ m') := by
  have hparts : s(some x.members, some y.members) = s(some x'.members, some y'.members) := by
    rw [Sym2.eq_iff]
    exact (h.members_eq joins.left joins.right joins'.left joins'.right).imp
      (fun h => ⟨congrArg some h.1, congrArg some h.2⟩)
      fun h => ⟨congrArg some h.1, congrArg some h.2⟩
  have hweight : w.same w' = true := (same_iff_rank h.ranked h.ranked').mpr h.rank_eq
  rw [fusion_of_joins joins, fusion_of_joins joins', h.size_relinks]
  exact ⟨hparts, hweight, rfl⟩

/-- Steps of two drains that do the same, each in its own memory. No step is stale. -/
def Matches (m m' : Memory Binary64) : Step Binary64 → Step Binary64 → Prop
  | .merged x, .merged x' => (x.fusion m).Same (x'.fusion m')
  | .done stop, .done stop' => stop.Same stop'
  | _, _ => False

/-- A drain that is mirrored where its lightest edge is untied is mirrored after its next step. -/
theorem Stepped.mirror (hs : Stepped m g t s m₁)
    (twins : (m.store.graph g).Twins σ (m'.store.graph g')) (ht : Weight.bounding t = true)
    (untied : (m.store.graph g).Untied t) (supplied : m'.supplied g' = true) :
    ∃ s' m₁' σ', (step g' t).run m' = (.ok s', m₁') ∧ Matches m m' s s' ∧
      (m₁.store.graph g).Twins σ' (m₁'.store.graph g') := by
  have hbound := ranked_of_storable (Weight.storable_of_bounding ht)
  cases hs with
  | exhausted lightest =>
    have hnone := twins.lightest_eq_none (Option.map_eq_none_iff.mp lightest)
    have hstop : Stepped m' g' t (.done .exhausted) m' :=
      .exhausted (by rw [Store.lightest?, hnone]; rfl)
    exact ⟨_, m', σ, hstop.stops_lower ht ht (Weight.le_refl t), trivial, twins⟩
  | @reached e w lightest weight =>
    have hl := lightest?_edges lightest
    obtain ⟨w', l', hl', hww⟩ := twins.exists_lightest hl
    have hw := ranked_of_storable (twins.sound.storable _ _ (twins.sound.lightest hl).1)
    have hw' := ranked_of_storable (twins.sound'.storable _ _ (twins.sound'.lightest hl').1)
    rw [lt_congr_rank hw hw' hbound hww] at weight
    have hstop : Stepped m' g' t (.done (.thresholdReached w')) m' :=
      .reached (lightest?_of_edges hl') weight
    exact ⟨_, m', σ, hstop.stops_lower ht ht (Weight.le_refl t), (same_iff_rank hw hw').mpr hww,
      twins⟩
  -- Edges of such graphs join live vertices.
  | stale lightest weight gone becomes =>
    have hthere := (twins.sound.lightest (lightest?_edges lightest)).1
    obtain ⟨hsrc, hdst⟩ := twins.anchored.live _ _ hthere
    simp [hsrc, hdst] at gone
  -- The lightest edge is the only one of its weight, so the other drain takes its image.
  | @merged e w x y k _ lightest weight joins relinks becomes =>
    obtain rfl := lightest?_graph lightest
    obtain ⟨w', l', hl', himage⟩ :=
      twins.lightest_of_untied untied weight (lightest?_edges lightest)
    rw [lt_congr_rank himage.ranked himage.ranked' hbound himage.rank_eq] at weight
    have hall (p) (hp : p ∈ ((m.store.graph e.graph).relinks e.link w).toList) :=
      (relinks p hp).1
    have hall' := himage.storable_relinks hall
    obtain ⟨hsrc', hdst'⟩ := twins.anchored'.live _ _ himage.stored'
    obtain ⟨s', m₁', hmerge⟩ := run_merge_storable (e := ⟨g', l'⟩) twins.anchored' himage.stored'
      (twins.sound'.storable _ _ himage.stored') supplied hall'
    obtain ⟨x', y', k', joins', -, becomes', rfl⟩ :=
      run_merge_ok (e := ⟨g', l'⟩) hsrc' hdst' hmerge
    have hstep :=
      run_step_of_lightest (e := ⟨g', l'⟩) ht (lightest?_of_edges hl') weight hsrc' hdst'
    refine ⟨_, m₁', carry σ k.vertex k'.vertex, hstep.trans hmerge, ?_, ?_⟩
    · exact fusion_same (e := e) (f := ⟨g', l'⟩) himage joins joins'
    · rw [becomes.graph, becomes'.graph]
      exact himage.twins_contract joins.left joins.right joins'.left joins'.right joins.free
        joins'.free hall

/-- While a drain has no ties, another one that mirrors it goes through the same steps. -/
theorem run_loop_mirror {n n' merges stale : Nat} {r : Nat × Nat × StopReason Binary64}
    (h : (loop g t n merges stale).run m = (.ok r, m₁)) (sound : m.Sound) (sound' : m'.Sound)
    (twins : (m.store.graph g).Twins σ (m'.store.graph g')) (ht : Weight.bounding t = true)
    (untied : Throughout g t m fun m₂ => (m₂.store.graph g).Untied t)
    (supplied : Throughout g' t m' fun m₂ => m₂.supplied g' = true)
    (hn : m'.store.edgeCount g' < n') :
    ∃ stop' m₁' σ', (loop g' t n' merges stale).run m' = (.ok (r.1, stale, stop'), m₁') ∧
      r.2.1 = stale ∧ r.2.2.Same stop' ∧
      (∀ k, List.Forall₂ Fusion.Same (fusions g t k m) (fusions g' t k m')) ∧
      (m₁.store.graph g).Twins σ' (m₁'.store.graph g') := by
  -- The induction is on the allowance of the first drain; the other one always has enough.
  induction n generalizing m m' σ merges stale n' with
  | zero => cases h
  | succ n ih =>
    obtain ⟨n', rfl⟩ := Nat.exists_eq_succ_of_ne_zero (Nat.ne_of_gt (Nat.zero_lt_of_lt hn))
    unfold loop at h
    obtain ⟨s, m₂, hstep, hrest⟩ := run_bind_eq_ok.mp h
    have hstepped := (run_step_ok hstep).2
    obtain ⟨s', m₂', σ₂, hstep', hmatch, twins₂⟩ :=
      hstepped.mirror twins ht untied.first supplied.first
    have hstepped' := (run_step_ok hstep').2
    unfold loop
    rw [run_bind_of_ok hstep']
    cases s with
    | merged x =>
      cases s' with
      | merged x' =>
        have hfewer := ((hstepped'.progress sound').1 rfl).1
        have hless : m₂'.store.edgeCount g' < n' := by omega
        obtain ⟨stop', m₁', σ', hloop, hstale, hstop, hfusions, htwins⟩ :=
          ih hrest (hstepped.sound sound) (hstepped'.sound sound') twins₂
            ((throughout_next hstep).mp untied).2 ((throughout_next hstep').mp supplied).2 hless
        refine ⟨stop', m₁', σ', hloop, hstale, hstop, fun k => ?_, htwins⟩
        cases k with
        | zero => exact .nil
        | succ k =>
          rw [fusions_of_merged hstep, fusions_of_merged hstep']
          exact .cons hmatch (hfusions k)
      | stale | done => exact hmatch.elim
    | stale => exact hmatch.elim
    | done stop =>
      cases s' with
      | done stop' =>
        cases hrest
        refine ⟨stop', m₂', σ₂, rfl, rfl, hmatch, fun k => ?_, twins₂⟩
        rw [fusions_of_done hstep, fusions_of_done hstep']
        exact .nil
      | merged | stale => exact hmatch.elim

end Drain

open Drain

/-- Identifiers carry no information into a drain without ties. Of two graphs that differ in the
names of their vertices, let one be drained so that at each merge only one edge has the lightest
weight, and let the source of the other have an identifier whenever one is drawn. Then the other
drain makes the same merges in the same order and stops for the same reason, no edge of either is
stale, and the graphs that are left differ in the names of their vertices only: they have the same
clusters at the same diameters, with edges of the same weights between them. -/
theorem untied_drain_mirrored {m m' m₁ : Memory Binary64} {g g' : GraphId} {t : Binary64}
    {r : DrainReport Binary64} {σ : Equiv.Perm VertexId} (sound : m.Sound) (sound' : m'.Sound)
    (anchored : (m.store.graph g).Anchored) (anchored' : (m'.store.graph g').Anchored)
    (mirrors : (m.store.graph g).Mirrors σ (m'.store.graph g')) (ht : Weight.bounding t = true)
    (drained : m.cluster g t = (.ok r, m₁))
    (untied : Throughout g t m fun m₂ => (m₂.store.graph g).Untied t)
    (supplied : Throughout g' t m' fun m₂ => m₂.supplied g' = true) :
    ∃ r' m₁' σ', m'.cluster g' t = (.ok r', m₁') ∧
      (∀ n, List.Forall₂ Fusion.Same (fusions g t n m) (fusions g' t n m')) ∧
      r.merges = r'.merges ∧ r.stale = 0 ∧ r'.stale = 0 ∧ r.stop.Same r'.stop ∧
      r.clusters = m₁.store.clusters g ∧ r'.clusters = m₁'.store.clusters g' ∧
      (m₁.store.graph g).Mirrors σ' (m₁'.store.graph g') ∧
      (m₁.store.graph g).Anchored ∧ (m₁'.store.graph g').Anchored := by
  have htwins : (m.store.graph g).Twins σ (m'.store.graph g') :=
    ⟨mirrors, sound g, sound' g', anchored, anchored'⟩
  rw [run_cluster_eq ht] at drained
  split at drained
  · rename_i merges stale stop m₂ hloop
    cases drained
    obtain ⟨stop', m₁', σ', hloop', hstale, hstop, hfusions, htwins'⟩ :=
      run_loop_mirror hloop sound sound' htwins ht untied supplied (Nat.lt_succ_self _)
    refine ⟨⟨g', t, merges, 0, stop', m₁'.store.clusters g'⟩, m₁', σ', ?_, hfusions, rfl, hstale,
      rfl, hstop, rfl, rfl, htwins'.toMirrors, htwins'.anchored, htwins'.anchored'⟩
    rw [run_cluster_eq ht, hloop']
  · cases drained
  · cases drained

def weightedRow (x y z u : BitVec 128) (w w' w'' : Binary64) : Graph Binary64 :=
  let v (n : BitVec 128) : VertexId := ⟨⟨n⟩⟩
  let e (n : BitVec 128) : EntityKey := ⟨⟨⟨7⟩⟩, ⟨⟨n⟩⟩⟩
  let G : Graph Binary64 := (((Graph.empty.ensure (v 1) (e x)).ensure (v 2) (e y)).ensure (v 3)
    (e z)).ensure (v 4) (e u)
  ((G.putLink ⟨v 1, v 2⟩ w).putLink ⟨v 2, v 3⟩ w').putLink ⟨v 3, v 4⟩ w''

/-- No distance from the first entity to the second, 0.05 to the third and 0.5 to the fourth. -/
def untiedRow : Graph Binary64 :=
  weightedRow 1 2 3 4 .zero (.ofDecimal false ⟨5, -2⟩) (.ofDecimal false ⟨5, -1⟩)

/-- The same row from its other end. The distance of nothing has a sign. -/
def untiedRowBack : Graph Binary64 :=
  weightedRow 4 3 2 1 (.ofDecimal false ⟨5, -1⟩) (.ofDecimal false ⟨5, -2⟩) (.ofMagnitude true 0)

theorem untiedRow_intact : untiedRow.Intact ∧ untiedRowBack.Intact := by
  constructor
  all_goals
    refine .putLink (.putLink (.putLink
      ((((Graph.Intact.empty.ensure _ _).ensure _ _).ensure _ _).ensure _ _) ?_ ?_ ?_ ?_)
      ?_ ?_ ?_ ?_) ?_ ?_ ?_ ?_
  all_goals decide +kernel

theorem untiedRow_mirrors : untiedRow.Mirrors reversal untiedRowBack := by
  refine .of_toList untiedRow_intact.1.toAnchored untiedRow_intact.2.toAnchored ?_ ?_ ?_
  all_goals decide +kernel

def rowBackMemory : Memory Binary64 :=
  { Memory.ofGraph ⟨⟨2⟩⟩ untiedRowBack with ids := ⟨[⟨1⟩, ⟨9⟩], 5⟩ }

theorem untiedRow_untied : Throughout ⟨⟨1⟩⟩ defaultThreshold (.ofGraph ⟨⟨1⟩⟩ untiedRow)
    fun m => (m.store.graph ⟨⟨1⟩⟩).Untied defaultThreshold := by
  rw [throughout_of_merge (by decide +kernel), throughout_of_merge (by decide +kernel),
    throughout_of_done (by decide +kernel)]
  decide +kernel

theorem rowBackMemory_supplied : Throughout ⟨⟨2⟩⟩ defaultThreshold rowBackMemory
    fun m => m.supplied ⟨⟨2⟩⟩ = true := by
  rw [throughout_of_merge (by decide +kernel), throughout_of_merge (by decide +kernel),
    throughout_of_done (by decide +kernel)]
  decide +kernel

/-- From either end, whatever the unions are called, the row is joined at no distance, then at
0.05. -/
theorem untiedRow_agrees :
    let m : Memory Binary64 := .ofGraph ⟨⟨1⟩⟩ untiedRow
    let m' : Memory Binary64 := rowBackMemory
    m.Sound ∧ m'.Sound ∧ (m.store.graph ⟨⟨1⟩⟩).Anchored ∧ (m'.store.graph ⟨⟨2⟩⟩).Anchored ∧
    (m.store.graph ⟨⟨1⟩⟩).Mirrors reversal (m'.store.graph ⟨⟨2⟩⟩) ∧
    Weight.bounding defaultThreshold = true ∧
    (Throughout ⟨⟨1⟩⟩ defaultThreshold m fun m₂ =>
      (m₂.store.graph ⟨⟨1⟩⟩).Untied defaultThreshold) ∧
    (Throughout ⟨⟨2⟩⟩ defaultThreshold m' fun m₂ => m₂.supplied ⟨⟨2⟩⟩ = true) ∧
    ∃ r m₁ r' m₁' σ', m.cluster ⟨⟨1⟩⟩ defaultThreshold = (.ok r, m₁) ∧ r.merges = 2 ∧
      m'.cluster ⟨⟨2⟩⟩ defaultThreshold = (.ok r', m₁') ∧
      (∀ n, List.Forall₂ Fusion.Same (fusions ⟨⟨1⟩⟩ defaultThreshold n m)
        (fusions ⟨⟨2⟩⟩ defaultThreshold n m')) ∧
      r.merges = r'.merges ∧ r.stop.Same r'.stop ∧
      (m₁.store.graph ⟨⟨1⟩⟩).Mirrors σ' (m₁'.store.graph ⟨⟨2⟩⟩) := by
  intro m m'
  have ht : Weight.bounding defaultThreshold = true := by decide +kernel
  have hsound : m.Sound := Memory.sound_ofGraph untiedRow_intact.1
  have hsound' : m'.Sound := Memory.sound_ofGraph untiedRow_intact.2
  have hgraph' : m'.store.graph ⟨⟨2⟩⟩ = untiedRowBack := Memory.graph_ofGraph ⟨⟨2⟩⟩ untiedRowBack
  have hanchored := Memory.anchored_ofGraph (g := ⟨⟨1⟩⟩) untiedRow_intact.1
  have hanchored' : (m'.store.graph ⟨⟨2⟩⟩).Anchored := hgraph' ▸ untiedRow_intact.2.toAnchored
  have hmirrors : (m.store.graph ⟨⟨1⟩⟩).Mirrors reversal (m'.store.graph ⟨⟨2⟩⟩) := by
    rw [Memory.graph_ofGraph, hgraph']
    exact untiedRow_mirrors
  have hrun : (m.cluster ⟨⟨1⟩⟩ defaultThreshold).1.meets
      (fun r => decide (r.merges = 2)) = true := by decide +kernel
  rcases h : m.cluster ⟨⟨1⟩⟩ defaultThreshold with ⟨o, m₁⟩
  rw [h] at hrun
  obtain ⟨r, rfl, hr⟩ := Outcome.meets_iff.mp hrun
  obtain ⟨r', m₁', σ', h', hfusions, hmerges, -, -, hstop, -, -, hleft, -⟩ :=
    untied_drain_mirrored hsound hsound' hanchored hanchored' hmirrors ht h untiedRow_untied
      rowBackMemory_supplied
  exact ⟨hsound, hsound', hanchored, hanchored', hmirrors, ht, untiedRow_untied,
    rowBackMemory_supplied, r, m₁, r', m₁', σ', rfl, of_decide_eq_true hr, h', hfusions, hmerges,
    hstop, hleft⟩

end RecordLinkage
