import RecordLinkage.Proofs.Drain.Progress
import RecordLinkage.Proofs.Graph.Anchored
import RecordLinkage.Proofs.Graph.Partition

namespace RecordLinkage

variable {ω : Type} [Weight ω]

/-- Every cluster of one graph lies inside a cluster of the other, and each cluster of the other is
made up of such clusters. -/
structure Graph.Refines (G H : Graph ω) : Prop where
  inside : ∀ v c, G.cluster? v = some c →
    ∃ u d, H.cluster? u = some d ∧ ∀ e, e ∈ c.members → e ∈ d.members
  madeUp : ∀ u d, H.cluster? u = some d → ∀ e, e ∈ d.members →
    ∃ v c, G.cluster? v = some c ∧ e ∈ c.members ∧ ∀ x, x ∈ c.members → x ∈ d.members

namespace Graph.Refines

variable {G H K : Graph ω}

theorem refl (G : Graph ω) : G.Refines G where
  inside v c hv := ⟨v, c, hv, fun _ he => he⟩
  madeUp u d hu _ he := ⟨u, d, hu, he, fun _ hx => hx⟩

theorem trans (h : G.Refines H) (h' : H.Refines K) : G.Refines K where
  inside v c hv := by
    obtain ⟨u, d, hu, hcd⟩ := h.inside v c hv
    obtain ⟨z, f, hz, hdf⟩ := h'.inside u d hu
    exact ⟨z, f, hz, fun e he => hdf e (hcd e he)⟩
  madeUp z f hz e he := by
    obtain ⟨u, d, hu, hed, hdf⟩ := h'.madeUp z f hz e he
    obtain ⟨v, c, hv, hec, hcd⟩ := h.madeUp u d hu e hed
    exact ⟨v, c, hv, hec, fun x hx => hdf x (hcd x hx)⟩

theorem congr (hc : ∀ v, H.cluster? v = G.cluster? v) : G.Refines H where
  inside v c hv := ⟨v, c, (hc v).trans hv, fun _ he => he⟩
  madeUp u d hu _ he := ⟨u, d, (hc u).symm.trans hu, he, fun _ hx => hx⟩

/-- A union contains its parts and nothing else; all other clusters stay. -/
theorem contract {l : Link} {w : ω} {x y : Cluster ω} {k : VertexId}
    (hsrc : G.cluster? l.src = some x) (hdst : G.cluster? l.dst = some y)
    (hfree : G.taken k = false) : G.Refines (G.contract l w x y k) := by
  have hcases (u : VertexId) (c : Cluster ω) :=
    cluster?_contract_iff (w := w) (u := u) (c := c) hsrc hdst hfree
  have hunion := (hcases k _).mpr (.inl ⟨rfl, rfl⟩)
  constructor
  · intro v c hv
    by_cases hvs : v = l.src
    · subst hvs
      cases hsrc.symm.trans hv
      exact ⟨k, _, hunion, fun e he => Cluster.mem_merged.mpr (.inl he)⟩
    · by_cases hvd : v = l.dst
      · subst hvd
        cases hdst.symm.trans hv
        exact ⟨k, _, hunion, fun e he => Cluster.mem_merged.mpr (.inr he)⟩
      · have hvk : v ≠ k := by
          rintro rfl
          rw [cluster?_of_not_taken hfree] at hv
          cases hv
        exact ⟨v, c, (hcases v c).mpr (.inr ⟨hvk, hvs, hvd, hv⟩), fun e he => he⟩
  · intro u d hu e he
    rcases (hcases u d).mp hu with ⟨rfl, rfl⟩ | ⟨-, -, -, hold⟩
    · rcases Cluster.mem_merged.mp he with hx | hy
      · exact ⟨l.src, x, hsrc, hx, fun e he => Cluster.mem_merged.mpr (.inl he)⟩
      · exact ⟨l.dst, y, hdst, hy, fun e he => Cluster.mem_merged.mpr (.inr he)⟩
    · exact ⟨u, d, hold, he, fun e he => he⟩

theorem clusters {s s' : Store ω} {g : GraphId} (h : (s.graph g).Refines (s'.graph g)) :
    (∀ p ∈ s.clusters g, ∃ q ∈ s'.clusters g, ∀ e, e ∈ p.2.members → e ∈ q.2.members) ∧
      ∀ q ∈ s'.clusters g, ∀ e, e ∈ q.2.members → ∃ p ∈ s.clusters g,
        e ∈ p.2.members ∧ ∀ x, x ∈ p.2.members → x ∈ q.2.members := by
  constructor
  · intro p hp
    obtain ⟨u, d, hu, hpd⟩ := h.inside _ _ (Store.mem_clusters.mp hp).2
    exact ⟨(⟨g, u⟩, d), Store.mem_clusters.mpr ⟨rfl, hu⟩, hpd⟩
  · intro q hq e he
    obtain ⟨v, c, hv, hec, hcq⟩ := h.madeUp _ _ (Store.mem_clusters.mp hq).2 e he
    exact ⟨(⟨g, v⟩, c), Store.mem_clusters.mpr ⟨rfl, hv⟩, hec, hcq⟩

end Graph.Refines

def DrainReport.after (r earlier : DrainReport ω) : DrainReport ω :=
  { r with merges := earlier.merges + r.merges, stale := earlier.stale + r.stale }

namespace Drain

open Program

variable {m m' m'' : Memory ω} {g : GraphId} {t t₁ t₂ : ω}

theorem Steps.refines {history : List (Step ω)} (h : Steps g t m history m') :
    (m.store.graph g).Refines (m'.store.graph g) := by
  refine h.induct (P := fun m' => (m.store.graph g).Refines (m'.store.graph g)) ?_ (.refl _)
  intro m₁ s m₂ hm hs
  exact hs.preserves (fun G l hG => hG.trans (.congr fun _ => rfl))
    (fun G l w x y k hsrc hdst hfree _ hG => hG.trans (.contract hsrc hdst hfree)) hm

/-- Above the lightest edge the threshold does not matter to a step. -/
theorem run_step_congr (ht₁ : Weight.bounding t₁ = true) (ht₂ : Weight.bounding t₂ = true) {e : Edge}
    {w : ω} (hlightest : m.store.lightest? g = some (e, w)) (hw₁ : Weight.lt w t₁ = true)
    (hw₂ : Weight.lt w t₂ = true) : (step g t₁).run m = (step g t₂).run m := by
  have hread : (lightest? g).run m = (.ok (some (e, w)), m) := by
    rw [← hlightest]
    rfl
  unfold step
  rw [checkThreshold, checkThreshold, if_pos ht₁, if_pos ht₂, pure_bind, pure_bind,
    run_bind_of_ok hread, run_bind_of_ok hread]
  dsimp only
  rw [hw₁, hw₂]

theorem lt_of_lt_bound [LawfulWeight ω] {w : ω} (ht₂ : Weight.bounding t₂ = true)
    (hw : Weight.lt w t₁ = true) (hle : Weight.le t₁ t₂) : Weight.lt w t₂ = true := by
  have hn := Weight.number_of_storable (Weight.storable_of_bounding ht₂)
  rcases LawfulWeight.lt_cotrans w t₂ t₁ hn hw with h | h
  · exact h
  · rw [Weight.le, h] at hle
    cases hle

/-- Where a drain stops, every lower threshold stops it too, and for the same reason. -/
theorem Stepped.stops_lower [LawfulWeight ω] {stop : StopReason ω}
    (hs : Stepped m g t₂ (.done stop) m') (ht₁ : Weight.bounding t₁ = true)
    (ht₂ : Weight.bounding t₂ = true) (hle : Weight.le t₁ t₂) :
    (step g t₁).run m = (.ok (.done stop), m) := by
  have hread : (lightest? g).run m = (.ok (m.store.lightest? g), m) := rfl
  unfold step
  rw [checkThreshold, if_pos ht₁, pure_bind, run_bind_of_ok hread]
  cases hs with
  | exhausted lightest =>
    rw [lightest]
    rfl
  | @reached e w lightest weight =>
    have hw : Weight.lt w t₁ = false := by
      apply eq_false_of_ne_true
      intro hlt
      rw [lt_of_lt_bound ht₂ hlt hle] at weight
      cases weight
    rw [lightest]
    dsimp only
    rw [hw]
    rfl

/-- Counts that a loop starts with are added to those it makes. -/
theorem run_loop_add (n merges stale : Nat) (m : Memory ω) :
    (loop g t n merges stale).run m =
      (do let r ← loop g t n 0 0; return (merges + r.1, stale + r.2.1, r.2.2)).run m := by
  induction n generalizing merges stale m with
  | zero => rfl
  | succ n ih =>
    rw [run_bind]
    unfold loop
    rw [run_bind, run_bind]
    rcases (step g t).run m with ⟨s | cause | _, m₁⟩
    · cases s with
      | merged x =>
        dsimp only
        -- Counts that the loop was given and counts of its first step are both taken out of it.
        rw [ih, ih 1 0, run_bind, run_bind]
        rcases (loop g t n 0 0).run m₁ with ⟨⟨a, b, stop⟩ | cause | _, m₂⟩
        · simp only [Nat.zero_add, Nat.add_assoc]
          rfl
        · rfl
        · rfl
      | stale e =>
        dsimp only
        rw [ih, ih 0 1, run_bind, run_bind]
        rcases (loop g t n 0 0).run m₁ with ⟨⟨a, b, stop⟩ | cause | _, m₂⟩
        · simp only [Nat.zero_add, Nat.add_assoc]
          rfl
        · rfl
        · rfl
      | done stop => rfl
    · rfl
    · rfl

/-- A drain to a lower threshold is the beginning of one to a higher threshold. -/
theorem run_loop_compose [LawfulWeight ω] {n n' merges stale : Nat} (hm : m.Sound)
    (ht₁ : Weight.bounding t₁ = true) (ht₂ : Weight.bounding t₂ = true) (hle : Weight.le t₁ t₂)
    (hn : m.store.edgeCount g < n) (hn' : m.store.edgeCount g < n') :
    (do let r ← loop g t₁ n merges stale; loop g t₂ n' r.1 r.2.1).run m =
      (loop g t₂ n' merges stale).run m := by
  induction n generalizing m merges stale with
  | zero => omega
  | succ n ih =>
    have hstop {stop : StopReason ω} (hs : Stepped m g t₁ (.done stop) m) :
        (do let r ← loop g t₁ (n + 1) merges stale; loop g t₂ n' r.1 r.2.1).run m =
          (loop g t₂ n' merges stale).run m := by
      have hstep := hs.stops_lower ht₁ ht₁ (Weight.le_refl t₁)
      have hloop : (loop g t₁ (n + 1) merges stale).run m = (.ok (merges, stale, stop), m) := by
        unfold loop
        rw [run_bind_of_ok hstep]
        rfl
      rw [run_bind_of_ok hloop]
    cases hlightest : m.store.lightest? g with
    | none => exact hstop (.exhausted hlightest)
    | some p =>
      obtain ⟨e, w⟩ := p
      cases hw : Weight.lt w t₁ with
      | false => exact hstop (.reached hlightest hw)
      | true =>
        have hw₂ := lt_of_lt_bound ht₂ hw hle
        have hsame := run_step_congr ht₁ ht₂ hlightest hw hw₂
        obtain ⟨n', rfl⟩ := Nat.exists_eq_succ_of_ne_zero (Nat.ne_of_gt (Nat.zero_lt_of_lt hn'))
        -- Fewer edges are left after the step, so that any allowance above their number does.
        have hrest {a b : Nat} {m₁ : Memory ω} (hm₁ : m₁.Sound)
            (hless : m₁.store.edgeCount g < m.store.edgeCount g) :
            (do let r ← loop g t₁ n a b; loop g t₂ (n' + 1) r.1 r.2.1).run m₁ =
              (loop g t₂ n' a b).run m₁ := by
          rw [ih hm₁ (by omega) (by omega)]
          exact run_loop_enough hm₁ (by omega) (by omega)
        rw [run_bind]
        conv_lhs => unfold loop
        conv_rhs => unfold loop
        rw [run_bind, run_bind, hsame]
        rcases hstep : (step g t₂).run m with ⟨s | cause | _, m₁⟩
        · have hs := (run_step_ok hstep).2
          obtain ⟨hmerge, hstale, -⟩ := hs.progress hm
          cases s with
          | merged x =>
            have h := hrest (a := merges + 1) (b := stale) (hs.sound hm) (hmerge rfl).1
            rw [run_bind] at h
            exact h
          | stale e =>
            have h := hrest (a := merges) (b := stale + 1) (hs.sound hm) (hstale rfl).1
            rw [run_bind] at h
            exact h
          | done stop =>
            cases hs with
            | exhausted lightest =>
              rw [hlightest] at lightest
              cases lightest
            | reached lightest weight =>
              rw [hlightest] at lightest
              cases lightest
              rw [hw₂] at weight
              cases weight
        · rfl
        · rfl

theorem run_cluster_eq (ht : Weight.bounding t = true) (m : Memory ω) :
    m.cluster g t = match (loop g t (m.store.edgeCount g + 1) 0 0).run m with
      | (.ok (merges, stale, stop), m') => (.ok ⟨g, t, merges, stale, stop, m'.store.clusters g⟩, m')
      | (.error cause, m') => (.error cause, m')
      | (.crash, m') => (.crash, m') := by
  rw [Memory.cluster]
  unfold cluster
  rw [checkThreshold, if_pos ht, pure_bind, run_bind]
  rcases (loop g t (m.store.edgeCount g + 1) 0 0).run m with ⟨⟨a, b, stop⟩ | cause | _, m'⟩ <;> rfl

/-- Draining to a lower threshold first is seen in nothing but the report, which counts what is left
to do. -/
theorem run_cluster_compose [LawfulWeight ω] (hm : m.Sound) (ht₁ : Weight.bounding t₁ = true)
    (ht₂ : Weight.bounding t₂ = true) (hle : Weight.le t₁ t₂) :
    m.cluster g t₂ = match m.cluster g t₁ with
      | (.ok r₁, m₁) => match m₁.cluster g t₂ with
        | (.ok r₂, m₂) => (.ok (r₂.after r₁), m₂)
        | (.error cause, m₂) => (.error cause, m₂)
        | (.crash, m₂) => (.crash, m₂)
      | (.error cause, m₁) => (.error cause, m₁)
      | (.crash, m₁) => (.crash, m₁) := by
  have hloop : (do let r ← loop g t₁ (m.store.edgeCount g + 1) 0 0
                   loop g t₂ (m.store.edgeCount g + 1) r.1 r.2.1).run m =
      (loop g t₂ (m.store.edgeCount g + 1) 0 0).run m :=
    run_loop_compose hm ht₁ ht₂ hle (Nat.lt_succ_self _) (Nat.lt_succ_self _)
  rw [run_cluster_eq ht₁, run_cluster_eq ht₂, ← hloop, run_bind]
  rcases hfirst : (loop g t₁ (m.store.edgeCount g + 1) 0 0).run m with ⟨⟨a, b, stop⟩ | cause | _, m₁⟩
  · obtain ⟨history, hsteps, -⟩ := run_loop hfirst nofun
    have hless := (hsteps.progress hm).1
    have hrest : (loop g t₂ (m.store.edgeCount g + 1) 0 0).run m₁ =
        (loop g t₂ (m₁.store.edgeCount g + 1) 0 0).run m₁ :=
      run_loop_enough (hsteps.sound hm) (by omega) (Nat.lt_succ_self _)
    dsimp only
    rw [run_loop_add, run_bind, hrest, run_cluster_eq ht₂]
    rcases (loop g t₂ (m₁.store.edgeCount g + 1) 0 0).run m₁ with
      ⟨⟨c, d, stop'⟩ | cause | _, m₂⟩ <;> rfl
  · rfl
  · rfl

theorem run_cluster_again [LawfulWeight ω] {report : DrainReport ω} (ht₁ : Weight.bounding t₁ = true)
    (ht₂ : Weight.bounding t₂ = true) (hle : Weight.le t₁ t₂)
    (h : m.cluster g t₂ = (.ok report, m')) :
    m'.cluster g t₁ = (.ok { report with threshold := t₁, merges := 0, stale := 0 }, m') := by
  obtain ⟨earlier, stop, hsteps, rfl⟩ := run_cluster_ok h
  have hstep := hsteps.stopped.stops_lower ht₁ ht₂ hle
  rw [run_cluster_eq ht₁]
  unfold loop
  rw [run_bind_of_ok hstep]
  rfl

end Drain

open Drain

variable {m : Memory ω} {g : GraphId} {t₁ t₂ : ω}

/-- Thresholds compose. A drain to a lower threshold and then to a higher one leaves the memory that
the drain to the higher one leaves, identifiers to draw from included, and their reports differ in
the counts only, which add up. After a drain, one to a lower threshold changes nothing. So the
clusters at the lower threshold make up those at the higher one. -/
theorem drain_thresholds_compose [LawfulWeight ω] (hm : m.Sound) (ht₁ : Weight.bounding t₁ = true)
    (ht₂ : Weight.bounding t₂ = true) (hle : Weight.le t₁ t₂) :
    (∀ report m₂, m.cluster g t₂ = (.ok report, m₂) ↔ ∃ r₁ m₁ r₂,
      m.cluster g t₁ = (.ok r₁, m₁) ∧ m₁.cluster g t₂ = (.ok r₂, m₂) ∧ report = r₂.after r₁) ∧
    (∀ report m₂, m.cluster g t₂ = (.ok report, m₂) → m₂.cluster g t₁ =
      (.ok { report with threshold := t₁, merges := 0, stale := 0 }, m₂)) ∧
    ∀ r₁ m₁ r₂ m₂, m.cluster g t₁ = (.ok r₁, m₁) → m.cluster g t₂ = (.ok r₂, m₂) →
      (∀ p ∈ r₁.clusters, ∃ q ∈ r₂.clusters, ∀ e, e ∈ p.2.members → e ∈ q.2.members) ∧
      ∀ q ∈ r₂.clusters, ∀ e, e ∈ q.2.members → ∃ p ∈ r₁.clusters,
        e ∈ p.2.members ∧ ∀ x, x ∈ p.2.members → x ∈ q.2.members := by
  have hcompose := run_cluster_compose (g := g) hm ht₁ ht₂ hle
  have hfirst (report : DrainReport ω) (m₂ : Memory ω) (h : m.cluster g t₂ = (.ok report, m₂)) :
      ∃ r₁ m₁ r₂, m.cluster g t₁ = (.ok r₁, m₁) ∧ m₁.cluster g t₂ = (.ok r₂, m₂) ∧
        report = r₂.after r₁ := by
    rw [h] at hcompose
    split at hcompose
    · rename_i r₁ m₁ h₁
      split at hcompose
      · rename_i r₂ m₂ h₂
        cases hcompose
        exact ⟨r₁, m₁, r₂, h₁, h₂, rfl⟩
      · cases hcompose
      · cases hcompose
    · cases hcompose
    · cases hcompose
  refine ⟨fun report m₂ => ⟨hfirst report m₂, ?_⟩, fun report m₂ => run_cluster_again ht₁ ht₂ hle, ?_⟩
  · rintro ⟨r₁, m₁, r₂, h₁, h₂, rfl⟩
    rw [hcompose, h₁]
    dsimp only
    rw [h₂]
  · intro r₁ m₁ r₂ m₂ h₁ h₂
    -- The drain to the higher threshold goes on from where the other one stopped.
    obtain ⟨r₁', m₁', r₂', h₁', h₂', rfl⟩ := hfirst r₂ m₂ h₂
    rw [h₁] at h₁'
    cases h₁'
    obtain ⟨earlier, -, hreport₁⟩ := run_cluster h₁ nofun
    obtain ⟨history, hsteps, hreport₂⟩ := run_cluster h₂' nofun
    obtain ⟨_, _, -, rfl⟩ := hreport₁ r₁ rfl
    obtain ⟨_, _, -, rfl⟩ := hreport₂ r₂' rfl
    exact hsteps.refines.clusters

def unevenPath : Graph Binary64 :=
  let v (n : BitVec 128) : VertexId := ⟨⟨n⟩⟩
  let e (n : BitVec 128) : EntityKey := ⟨⟨⟨7⟩⟩, ⟨⟨n⟩⟩⟩
  let G : Graph Binary64 := ((Graph.empty.ensure (v 1) (e 1)).ensure (v 2) (e 2)).ensure (v 3) (e 3)
  (G.putLink ⟨v 1, v 2⟩ (.ofDecimal false ⟨3, -2⟩)).putLink ⟨v 2, v 3⟩ (.ofDecimal false ⟨6, -2⟩)

theorem unevenPath_intact : unevenPath.Intact := by
  apply Graph.Intact.putLink
  · apply Graph.Intact.putLink
    · exact ((Graph.Intact.empty.ensure _ _).ensure _ _).ensure _ _
    all_goals decide +kernel
  all_goals decide +kernel

/-- A drain to 0.05 makes the first merge and one to 0.1 that follows it the second: those of the
drain to 0.1 alone. -/
theorem unevenPath_in_stages : let m : Memory Binary64 := .ofGraph ⟨⟨1⟩⟩ unevenPath
    let t₁ : Binary64 := .ofDecimal false ⟨5, -2⟩
    m.Sound ∧ Weight.bounding t₁ = true ∧ Weight.bounding defaultThreshold = true ∧
      Weight.le t₁ defaultThreshold ∧ ∃ r₁ m₁ r₂ m₂, m.cluster ⟨⟨1⟩⟩ t₁ = (.ok r₁, m₁) ∧
        m₁.cluster ⟨⟨1⟩⟩ defaultThreshold = (.ok r₂, m₂) ∧ r₁.merges = 1 ∧ r₂.merges = 1 ∧
        m.cluster ⟨⟨1⟩⟩ defaultThreshold = (.ok (r₂.after r₁), m₂) := by
  intro m t₁
  have hsound : m.Sound := Memory.sound_ofGraph unevenPath_intact
  have ht₁ : Weight.bounding t₁ = true := by decide +kernel
  have ht₂ : Weight.bounding defaultThreshold = true := by decide +kernel
  have hle : Weight.le t₁ defaultThreshold := by
    show Weight.lt _ _ = false
    decide +kernel
  have hrun : (m.cluster ⟨⟨1⟩⟩ t₁).1.meets (fun r => decide (r.merges = 1)) = true ∧
      ((m.cluster ⟨⟨1⟩⟩ t₁).2.cluster ⟨⟨1⟩⟩ defaultThreshold).1.meets
        (fun r => decide (r.merges = 1)) = true := by decide +kernel
  rcases h₁ : m.cluster ⟨⟨1⟩⟩ t₁ with ⟨r, m₁⟩
  rw [h₁] at hrun
  obtain ⟨r₁, rfl, hr₁⟩ := Outcome.meets_iff.mp hrun.1
  rcases h₂ : m₁.cluster ⟨⟨1⟩⟩ defaultThreshold with ⟨r, m₂⟩
  rw [h₂] at hrun
  obtain ⟨r₂, rfl, hr₂⟩ := Outcome.meets_iff.mp hrun.2
  have hwhole := ((drain_thresholds_compose hsound ht₁ ht₂ hle).1 _ _).mpr ⟨r₁, m₁, r₂, h₁, h₂, rfl⟩
  exact ⟨hsound, ht₁, ht₂, hle, r₁, m₁, r₂, m₂, rfl, h₂, of_decide_eq_true hr₁, of_decide_eq_true hr₂,
    hwhole⟩

end RecordLinkage
