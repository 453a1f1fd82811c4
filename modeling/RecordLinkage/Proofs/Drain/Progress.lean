import RecordLinkage.Proofs.Drain.Run
import RecordLinkage.Proofs.Graph.Sound
import RecordLinkage.Proofs.Weight.Binary64

namespace RecordLinkage

variable {ω : Type} [Weight ω]

theorem Store.length_clusters (s : Store ω) (g : GraphId) :
    (s.clusters g).length = (s.graph g).clusters.size := by
  simp [clusters, SortedBy.size]

theorem Store.edgeCount_eq_zero {s : Store ω} {g : GraphId} :
    s.edgeCount g = 0 ↔ ∀ l, (s.graph g).edges.weight? l = none := by
  rw [Store.edgeCount, ← EdgeIndex.card_links, Finset.card_eq_zero,
    Finset.eq_empty_iff_forall_notMem]
  simp [EdgeIndex.mem_links]

namespace Drain

open Program

variable {m m' : Memory ω} {g : GraphId} {t : ω} {s : Step ω}

theorem Stepped.sound (hs : Stepped m g t s m') (h : m.Sound) : m'.Sound := by
  intro g'
  cases hs with
  | exhausted => exact h g'
  | reached => exact h g'
  | stale lightest weight gone becomes =>
    rw [becomes g']
    split
    · exact (h g).erase _
    · exact h g'
  | merged lightest weight joins relinks becomes =>
    rw [becomes g']
    split
    · exact Graph.sound_contract (h g) fun p hp => (relinks p hp).1
    · exact h g'

/-- A step that does not stop leaves fewer edges, and one vertex less if it merges. -/
theorem Stepped.progress (hs : Stepped m g t s m') (h : m.Sound) :
    (s.isMerge = true → m'.store.edgeCount g < m.store.edgeCount g ∧
      (m'.store.clusters g).length + 1 = (m.store.clusters g).length) ∧
    (s.isStale = true → m'.store.edgeCount g < m.store.edgeCount g ∧
      (m'.store.graph g).clusters = (m.store.graph g).clusters ∧
      (m'.store.graph g).retired = (m.store.graph g).retired) ∧
    (s.state = .done → m' = m) := by
  have hthere {e : Edge} {w : ω} (hlightest : m.store.lightest? g = some (e, w)) :
      ((m.store.graph g).edges.weight? e.link).isSome = true := by
    rw [((h g).lightest (lightest?_edges hlightest)).1]
    rfl
  cases hs with
  | exhausted => exact ⟨nofun, nofun, fun _ => rfl⟩
  | reached => exact ⟨nofun, nofun, fun _ => rfl⟩
  | stale lightest weight gone becomes =>
    refine ⟨nofun, fun _ => ?_, nofun⟩
    have hsize := Graph.size_eraseLink (hthere lightest)
    rw [Store.edgeCount, Store.edgeCount, becomes.graph]
    exact ⟨by omega, rfl, rfl⟩
  | merged lightest weight joins relinks becomes =>
    refine ⟨fun _ => ?_, nofun, nofun⟩
    obtain rfl := lightest?_graph lightest
    rw [Store.length_clusters, Store.length_clusters, Store.edgeCount, Store.edgeCount,
      becomes.graph]
    exact ⟨Graph.size_contract_lt (h _).toCoherent (hthere lightest) joins.distinct,
      Graph.clusters_contract joins.left joins.right joins.distinct joins.free⟩

theorem Steps.sound {history : List (Step ω)} (h : Steps g t m history m') (hm : m.Sound) :
    m'.Sound := h.induct (fun _ _ _ hm hs => hs.sound hm) hm

/-- Each edge pays for at most one step that goes on, and each vertex for at most one merge. -/
theorem Steps.progress {history : List (Step ω)} (h : Steps g t m history m') (hm : m.Sound) :
    history.countP Step.isMerge + history.countP Step.isStale + m'.store.edgeCount g ≤
        m.store.edgeCount g ∧
      history.countP Step.isMerge + (m'.store.clusters g).length = (m.store.clusters g).length := by
  induction h with
  | nil m => simp
  | @cons m m₁ m' s rest first later ih =>
    obtain ⟨hedges, hvertices⟩ := ih (first.sound hm)
    obtain ⟨hmerge, hstale, hdone⟩ := first.progress hm
    rw [List.countP_cons, List.countP_cons]
    cases s with
    | merged x =>
      obtain ⟨hless, hone⟩ := hmerge rfl
      simp only [Step.isMerge, Step.isStale, if_true, Bool.false_eq_true, if_false]
      omega
    | stale e =>
      obtain ⟨hless, hsame, -⟩ := hstale rfl
      have hlength : (m₁.store.clusters g).length = (m.store.clusters g).length := by
        rw [Store.length_clusters, Store.length_clusters, hsame]
      simp only [Step.isMerge, Step.isStale, if_true, Bool.false_eq_true, if_false]
      omega
    | done stop =>
      rw [hdone rfl] at hedges hvertices
      simpa [Step.isMerge, Step.isStale] using ⟨hedges, hvertices⟩

/-- A stop tells whether an edge is left, and that none below the threshold is. -/
theorem Stepped.stop [LawfulWeight ω] {stop : StopReason ω}
    (hs : Stepped m g t (.done stop) m') (hm : m.Sound) :
    (stop = .exhausted ↔ m.store.edgeCount g = 0) ∧
      (∀ w, stop = .thresholdReached w → (∃ l, (m.store.graph g).edges.weight? l = some w) ∧
        ∀ l w', (m.store.graph g).edges.weight? l = some w' → Weight.le w w') ∧
      ∀ l w, (m.store.graph g).edges.weight? l = some w → Weight.lt w t = false := by
  cases hs with
  | exhausted lightest =>
    have hnone := (hm g).lightest_none (Option.map_eq_none_iff.mp lightest)
    refine ⟨⟨fun _ => Store.edgeCount_eq_zero.mpr hnone, fun _ => rfl⟩, nofun, ?_⟩
    intro l w hw
    rw [hnone] at hw
    cases hw
  | reached lightest weight =>
    rename_i e w
    have hlightest := lightest?_edges lightest
    have hthere := ((hm g).lightest hlightest).1
    refine ⟨⟨nofun, ?_⟩, ?_, ?_⟩
    · intro hzero
      rw [Store.edgeCount_eq_zero.mp hzero] at hthere
      cases hthere
    · intro w' hw'
      cases hw'
      exact ⟨⟨_, hthere⟩, fun l w' hw' => (hm g).le_of_lightest hlightest hw'⟩
    · intro l w' hw'
      have hle := (hm g).le_of_lightest hlightest hw'
      apply eq_false_of_ne_true
      intro hlt
      have hw := Weight.number_of_storable ((hm g).storable _ _ hthere)
      rw [Weight.lt_of_le_of_lt hw hle hlt] at weight
      cases weight

theorem run_loop_enough {n n' merges stale : Nat} (hm : m.Sound) (hn : m.store.edgeCount g < n)
    (hn' : m.store.edgeCount g < n') :
    (loop g t n merges stale).run m = (loop g t n' merges stale).run m := by
  induction n generalizing n' m merges stale with
  | zero => omega
  | succ n ih =>
    obtain ⟨n', rfl⟩ := Nat.exists_eq_succ_of_ne_zero (Nat.ne_of_gt (Nat.zero_lt_of_lt hn'))
    unfold loop
    rw [run_bind, run_bind]
    rcases hstep : (step g t).run m with ⟨result, m₁⟩
    cases result with
    | error cause => rfl
    | crash => rfl
    | ok s =>
      have hs := (run_step_ok hstep).2
      obtain ⟨hmerge, hstale, -⟩ := hs.progress hm
      cases s with
      | done stop => rfl
      | merged x =>
        have hless := (hmerge rfl).1
        exact ih (hs.sound hm) (by omega) (by omega)
      | stale e =>
        have hless := (hstale rfl).1
        exact ih (hs.sound hm) (by omega) (by omega)

theorem run_cluster_enough {n : Nat} (hm : m.Sound) (hn : m.store.edgeCount g < n) :
    (cluster n g t).run m = m.cluster g t := by
  rw [Memory.cluster]
  unfold cluster
  rw [checkThreshold]
  split
  · rw [pure_bind, pure_bind, run_bind, run_bind, run_loop_enough hm hn (Nat.lt_succ_self _)]
  · rfl

/-- Within such an allowance only the store makes a drain fail. -/
theorem run_loop_ends {n merges stale : Nat} (hm : m.Sound) (ht : Weight.bounding t = true)
    (hn : m.store.edgeCount g < n) : FailsInStore ((loop g t n merges stale).run m).1 := by
  induction n generalizing m merges stale with
  | zero => omega
  | succ n ih =>
    unfold loop
    rw [run_bind]
    have hends := (step_ends (g := g) ht).run m
    rcases hstep : (step g t).run m with ⟨result, m₁⟩
    rw [hstep] at hends
    rcases hends with ⟨s, rfl⟩ | ⟨cause, rfl⟩
    · have hs := (run_step_ok hstep).2
      obtain ⟨hmerge, hstale, -⟩ := hs.progress hm
      cases s with
      | done stop => exact .inl ⟨_, rfl⟩
      | merged x =>
        have hless := (hmerge rfl).1
        exact ih (hs.sound hm) (by omega)
      | stale e =>
        have hless := (hstale rfl).1
        exact ih (hs.sound hm) (by omega)
    · exact .inr ⟨cause, rfl⟩

end Drain

open Drain Program

variable {m : Memory ω} {g : GraphId} {t : ω}

/-- Whatever a store holds, each step of a drain that does not stop leaves fewer edges, and one
vertex less if it merges. So there are no more such steps than edges, no allowance above that is
used up, and a report tells how many vertices went and what the least remaining edge is. -/
theorem drain_terminates [LawfulWeight ω] (hm : m.Sound) (ht : Weight.bounding t = true) :
    (∀ n history m₁ s m₂, (steps g t n).run m = (.ok history, m₁) →
      (step g t).run m₁ = (.ok s, m₂) →
      (s.isMerge = true → m₂.store.edgeCount g < m₁.store.edgeCount g ∧
        (m₂.store.clusters g).length + 1 = (m₁.store.clusters g).length) ∧
      (s.isStale = true → m₂.store.edgeCount g < m₁.store.edgeCount g ∧
        (m₂.store.graph g).clusters = (m₁.store.graph g).clusters ∧
        (m₂.store.graph g).retired = (m₁.store.graph g).retired)) ∧
    (∀ n history m', (steps g t n).run m = (.ok history, m') →
      history.countP Step.isMerge + history.countP Step.isStale ≤ m.store.edgeCount g) ∧
    (∀ allowance, m.store.edgeCount g < allowance →
      (cluster allowance g t).run m = m.cluster g t) ∧
    ((∃ report, (m.cluster g t).1 = .ok report) ∨
      ∃ cause, (m.cluster g t).1 = .error (.store cause)) ∧
    ∀ report m', m.cluster g t = (.ok report, m') →
      report.merges + report.stale ≤ m.store.edgeCount g ∧
      report.merges + (m'.store.clusters g).length = (m.store.clusters g).length ∧
      (∀ l w, (m'.store.graph g).edges.weight? l = some w → Weight.lt w t = false) ∧
      (report.stop = .exhausted ↔ m'.store.edgeCount g = 0) ∧
      ∀ w, report.stop = .thresholdReached w →
        (∃ l, (m'.store.graph g).edges.weight? l = some w) ∧
          ∀ l w', (m'.store.graph g).edges.weight? l = some w' → Weight.le w w' := by
  refine ⟨?_, ?_, ?_, ?_, ?_⟩
  · intro n history m₁ s m₂ hsteps hstep
    have hsound := (run_steps_ok hsteps).sound hm
    obtain ⟨hmerge, hstale, -⟩ := (run_step_ok hstep).2.progress hsound
    exact ⟨hmerge, hstale⟩
  · intro n history m' hsteps
    have hedges := ((run_steps_ok hsteps).progress hm).1
    omega
  · intro allowance hless
    exact run_cluster_enough hm hless
  -- The allowance of a drain exceeds its edges, so that it is never what ends it.
  · have hloop : FailsInStore ((loop g t (m.store.edgeCount g + 1) 0 0).run m).1 :=
      run_loop_ends hm ht (Nat.lt_succ_self _)
    rw [Memory.cluster]
    unfold cluster
    rw [checkThreshold, if_pos ht, pure_bind, run_bind]
    rcases hrun : (loop g t (m.store.edgeCount g + 1) 0 0).run m with ⟨result, m'⟩
    rw [hrun] at hloop
    rcases hloop with ⟨⟨merges, stale, stop⟩, rfl⟩ | ⟨cause, rfl⟩
    · exact .inl ⟨_, rfl⟩
    · exact .inr ⟨cause, rfl⟩
  · intro report m' hcluster
    -- All steps but the last one are counted; the last one stops.
    obtain ⟨history, hsteps, hreport⟩ := run_cluster hcluster fun cause h => by cases h
    obtain ⟨earlier, stop, rfl, rfl⟩ := hreport report rfl
    obtain ⟨hedges, hvertices⟩ := hsteps.progress hm
    obtain ⟨hexhausted, hreached, hleast⟩ := hsteps.stopped.stop (hsteps.sound hm)
    simp only [List.countP_append, List.countP_singleton, Step.isMerge, Step.isStale,
      Bool.false_eq_true, if_false, Nat.add_zero] at hedges hvertices
    refine ⟨?_, hvertices, hleast, hexhausted, hreached⟩
    show earlier.countP Step.isMerge + earlier.countP Step.isStale ≤ m.store.edgeCount g
    omega

/-- Three entities with a reversed edge, an edge from a vertex to itself, and two edges that lost an
end. -/
def untidy : Memory Binary64 :=
  let v (n : BitVec 128) : VertexId := ⟨⟨n⟩⟩
  let e (n : BitVec 128) : EntityKey := ⟨⟨⟨7⟩⟩, ⟨⟨n⟩⟩⟩
  let G : Graph Binary64 := ((Graph.empty.ensure (v 1) (e 1)).ensure (v 2) (e 2)).ensure (v 3) (e 3)
  let x := (((G.edges.put ⟨v 1, v 2⟩ .zero).put ⟨v 3, v 2⟩ defaultThreshold).put
    ⟨v 3, v 3⟩ defaultThreshold).put ⟨v 1, v 8⟩ .zero
  ⟨(∅ : Store Binary64).setGraph ⟨⟨1⟩⟩ { G with edges := x.put ⟨v 5, v 1⟩ .zero }, ⟨[], 0⟩⟩

theorem untidy_sound : untidy.Sound := by
  intro g
  rw [untidy, Store.graph_setGraph]
  split
  · have hzero : Weight.storable Binary64.zero = true := by decide +kernel
    have hbound : Weight.storable defaultThreshold = true := by decide +kernel
    simp only [Graph.edges_ensure]
    exact (((((EdgeIndex.Sound.empty.put _ hzero).put _ hbound).put _ hbound).put _ hzero).put _
      hzero)
  · exact .empty

/-- One merge, and its new edges to the two lost ends are removed as stale. -/
theorem untidy_drained : untidy.Sound ∧ Weight.bounding defaultThreshold = true ∧
    ∃ report m', untidy.cluster ⟨⟨1⟩⟩ defaultThreshold = (.ok report, m') ∧ report.merges = 1 ∧
      report.stale = 2 ∧ report.merges + (m'.store.clusters ⟨⟨1⟩⟩).length = 3 := by
  have ht : Weight.bounding defaultThreshold = true := by decide +kernel
  have hrun : (untidy.cluster ⟨⟨1⟩⟩ defaultThreshold).1.meets
      (fun report => decide (report.merges = 1 ∧ report.stale = 2)) = true := by decide +kernel
  have hthree : (untidy.store.clusters ⟨⟨1⟩⟩).length = 3 := by decide +kernel
  rcases hcluster : untidy.cluster ⟨⟨1⟩⟩ defaultThreshold with ⟨r, m'⟩
  rw [hcluster] at hrun
  obtain ⟨report, rfl, hreport⟩ := Outcome.meets_iff.mp hrun
  obtain ⟨hmerges, hstale⟩ := of_decide_eq_true hreport
  have hvertices := ((drain_terminates untidy_sound ht).2.2.2.2 report m' hcluster).2.1
  exact ⟨untidy_sound, ht, report, m', rfl, hmerges, hstale, hvertices.trans hthree⟩

end RecordLinkage
