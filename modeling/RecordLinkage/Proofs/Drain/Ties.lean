import RecordLinkage.Proofs.Drain.Thresholds
import RecordLinkage.Proofs.Drain.Total
import RecordLinkage.Proofs.Sorted.Ext
import RecordLinkage.Proofs.Ties.View
import Mathlib.Logic.Equiv.Basic

namespace RecordLinkage

open Binary64 Relation

namespace Graph

variable {B : Type} {base : B → SortedSet EntityKey} {place : B → VertexId} {G G' : Graph Binary64}
  {l : Link} {w : Binary64} {x y : Cluster Binary64} {k : VertexId}

structure Tracks (base : B → SortedSet EntityKey) (place : B → VertexId) (G : Graph Binary64) :
    Prop where
  covers : G.Covers place
  live : ∀ b, G.live (place b) = true
  members : ∀ b c, G.cluster? (place b) = some c →
    ∀ e, e ∈ c.members ↔ ∃ b', place b' = place b ∧ e ∈ base b'

theorem Tracks.contract (h : G.Tracks base place) (hsrc : G.cluster? l.src = some x)
    (hdst : G.cluster? l.dst = some y) (hfree : G.taken k = false) :
    (G.contract l w x y k).Tracks base (moved place l k) := by
  have hk (b : B) : place b ≠ k := (ne_of_not_taken hfree (h.live b)).symm
  have hlive (u : VertexId) := live_contract_iff (u := u) (w := w) hsrc hdst hfree
  have hunion (b : B) : moved place l k b = k ↔ place b = l.src ∨ place b = l.dst := by
    by_cases hb : place b = l.src ∨ place b = l.dst
    · simp only [moved_of_end hb, hb]
    · simp only [moved_of_not_end hb, hb, hk b]
  refine ⟨fun v hv => ?_, fun b => ?_, fun b c hc e => ?_⟩
  · rcases (hlive v).mp hv with rfl | ⟨-, hs, hd, hv⟩
    · obtain ⟨b, hb⟩ := h.covers l.src (live_iff.mpr ⟨x, hsrc⟩)
      exact ⟨b, (hunion b).mpr (.inl hb)⟩
    · obtain ⟨b, rfl⟩ := h.covers v hv
      exact ⟨b, moved_of_not_end (not_or.mpr ⟨hs, hd⟩)⟩
  · rw [hlive]
    by_cases hb : place b = l.src ∨ place b = l.dst
    · exact .inl ((hunion b).mpr hb)
    · rw [moved_of_not_end hb]
      exact .inr ⟨hk b, (not_or.mp hb).1, (not_or.mp hb).2, h.live b⟩
  -- The members of the union are those of the blocks at its parts.
  · rcases (cluster?_contract_iff hsrc hdst hfree).mp hc with ⟨hb, rfl⟩ | ⟨hb, hs, hd, hc⟩
    · obtain ⟨b₁, hb₁⟩ := h.covers l.src (live_iff.mpr ⟨x, hsrc⟩)
      obtain ⟨b₂, hb₂⟩ := h.covers l.dst (live_iff.mpr ⟨y, hdst⟩)
      rw [Cluster.mem_merged, h.members b₁ x (hb₁.symm ▸ hsrc), h.members b₂ y (hb₂.symm ▸ hdst),
        hb₁, hb₂, ← exists_or, hb]
      simp only [hunion, or_and_right]
    · have hb' : ¬ (place b = l.src ∨ place b = l.dst) := mt (hunion b).mpr hb
      rw [moved_of_not_end hb'] at hb hs hd hc ⊢
      rw [h.members b c hc]
      refine exists_congr fun b' => and_congr_left fun _ => ?_
      by_cases hends : place b' = l.src ∨ place b' = l.dst
      · rw [moved_of_end hends]
        refine iff_of_false (fun heq => hb' (heq ▸ hends)) (Ne.symm hb)
      · rw [moved_of_not_end hends]

/-- Two graphs are equal up to the names of their vertices. -/
structure RenamedBy {ω : Type} [Weight ω] (σ : Equiv.Perm VertexId) (G G' : Graph ω) : Prop where
  cluster : ∀ v, G'.cluster? (σ v) = G.cluster? v
  distance : ∀ u v, G'.distance? (σ u) (σ v) = G.distance? u v

theorem RenamedBy.of_toList {σ : Equiv.Perm VertexId} (h : G.Anchored) (h' : G'.Anchored)
    (hcluster : ∀ p ∈ G.clusters.toList, G'.cluster? (σ p.1) = some p.2)
    (hback : ∀ p ∈ G'.clusters.toList, G.live (σ.symm p.1) = true)
    (hdistance : ∀ p ∈ G.clusters.toList, ∀ q ∈ G.clusters.toList,
      G'.distance? (σ p.1) (σ q.1) = G.distance? p.1 q.1) : G.RenamedBy σ G' := by
  have hall (v : VertexId) : G'.cluster? (σ v) = G.cluster? v := by
    cases hc : G.cluster? v with
    | some c => exact hcluster (v, c) (SortedMap.mem_toList.mpr hc)
    | none =>
      cases hc' : G'.cluster? (σ v) with
      | none => rfl
      | some c' =>
        have hlive := hback (σ v, c') (SortedMap.mem_toList.mpr hc')
        rw [σ.symm_apply_apply] at hlive
        obtain ⟨c, hlive⟩ := live_iff.mp hlive
        cases hc.symm.trans hlive
  have hlive (v : VertexId) : G'.live (σ v) = G.live v := by
    rw [live_eq_isSome, live_eq_isSome, hall]
  refine ⟨hall, h.compare_distances (R := fun a b => b = a) h' hlive rfl fun u v hu hv => ?_⟩
  obtain ⟨x, hx⟩ := live_iff.mp hu
  obtain ⟨y, hy⟩ := live_iff.mp hv
  exact hdistance (u, x) (SortedMap.mem_toList.mpr hx) (v, y) (SortedMap.mem_toList.mpr hy)

def membersOf (G : Graph Binary64) (b : {v // G.live v = true}) : SortedSet EntityKey :=
  ((G.cluster? b).map Cluster.members).getD ∅

variable {σ : Equiv.Perm VertexId}

theorem RenamedBy.tracks (h : G.RenamedBy σ G') : G'.Tracks G.membersOf fun b => σ b := by
  refine ⟨fun v hv => ?_, fun b => ?_, fun b c hc e => ?_⟩
  · obtain ⟨c, hc⟩ := live_iff.mp hv
    rw [← σ.apply_symm_apply v, h.cluster] at hc
    exact ⟨⟨σ.symm v, live_iff.mpr ⟨c, hc⟩⟩, σ.apply_symm_apply v⟩
  · obtain ⟨c, hc⟩ := live_iff.mp b.2
    exact live_iff.mpr ⟨c, (h.cluster b).trans hc⟩
  · have hmembers : G.membersOf b = c.members := by
      rw [membersOf, ← h.cluster, hc]
      rfl
    rw [← hmembers]
    constructor
    · exact fun he => ⟨b, rfl, he⟩
    · rintro ⟨b', hb', he⟩
      rw [Subtype.ext (σ.injective hb')] at he
      exact he

theorem RenamedBy.view (h : G.RenamedBy σ G') :
    G'.view (fun b : {v // G.live v = true} => σ b) = G.view Subtype.val := by
  apply Web.ext
  · ext a b
    exact σ.injective.eq_iff
  · funext a b
    rw [dist_view, dist_view, h.distance]

theorem Tracks.members_mem {s s' : Store Binary64} {g g' : GraphId} {place' : B → VertexId}
    (h : (s.graph g).Tracks base place) (h' : (s'.graph g').Tracks base place')
    (hview : (s.graph g).view place = (s'.graph g').view place') {e : SortedSet EntityKey}
    (he : e ∈ (s.clusters g).map fun p => p.2.members) :
    e ∈ (s'.clusters g').map fun p => p.2.members := by
  obtain ⟨p, hp, rfl⟩ := List.mem_map.mp he
  have hcluster := (Store.mem_clusters.mp hp).2
  obtain ⟨b, hb⟩ := h.covers _ (live_iff.mpr ⟨_, hcluster⟩)
  obtain ⟨c, hc⟩ := live_iff.mp (h'.live b)
  refine List.mem_map.mpr ⟨(⟨g', place' b⟩, c), Store.mem_clusters.mpr ⟨rfl, hc⟩, ?_⟩
  have hsame (b' : B) : place b' = place b ↔ place' b' = place' b := by
    rw [← same_view (G := s.graph g), hview, same_view]
  apply SortedBy.ext_mem
  intro e
  rw [h'.members b c hc, h.members b p.2 (hb.symm ▸ hcluster)]
  simp only [hsame]

end Graph

namespace Drain

open Program

variable {m m' : Memory Binary64} {g : GraphId} {t : Binary64} {s : Step Binary64} {B : Type}
  {base : B → SortedSet EntityKey} {place : B → VertexId}

/-- A step joins two of the nearest blocks, or none are near enough. -/
theorem Stepped.view (hs : Stepped m g t s m') (sound : m.Sound)
    (anchored : (m.store.graph g).Anchored) (ht : Weight.storable t = true)
    (h : (m.store.graph g).Tracks base place) :
    ((∃ stop, s = .done stop) ∧ m' = m ∧ ((m.store.graph g).view place).Drained (rank t)) ∨
      ∃ x place', s = .merged x ∧ (m'.store.graph g).Tracks base place' ∧
        Web.Step (rank t) ((m.store.graph g).view place) ((m'.store.graph g).view place') := by
  cases hs with
  | exhausted lightest =>
    have hnone : (m.store.graph g).edges.lightest? = none := by
      rw [Store.lightest?, Option.map_eq_none_iff] at lightest
      exact lightest
    refine .inl ⟨⟨_, rfl⟩, rfl, fun a b => ?_⟩
    rw [Graph.dist_view]
    cases hd : (m.store.graph g).distance? (place a) (place b) with
    | none => exact le_top
    | some w =>
      obtain ⟨l, -, hl⟩ := Option.bind_eq_some_iff.mp hd
      rw [(sound g).lightest_none hnone] at hl
      cases hl
  | reached lightest weight =>
    have hfirst := lightest?_edges lightest
    have hw := (sound g).storable _ _ ((sound g).lightest hfirst).1
    refine .inl ⟨⟨_, rfl⟩, rfl, fun a b => ?_⟩
    refine le_trans ?_ (Graph.rank_le_dist (sound g) hfirst a b)
    exact (le_iff_rank (ranked_of_storable ht) (ranked_of_storable hw)).mp weight
  -- Edges of such graphs join live vertices.
  | stale lightest weight gone becomes =>
    have hl := (anchored.coherent.lightest (lightest?_edges lightest)).1
    obtain ⟨hsrc, hdst⟩ := anchored.live _ _ hl
    simp [hsrc, hdst] at gone
  -- The ends of the edge are where some blocks are; those are the ones that are joined.
  | @merged e w x y k _ lightest weight joins relinks becomes =>
    obtain rfl := lightest?_graph lightest
    have hfirst := lightest?_edges lightest
    have hl := (anchored.coherent.lightest hfirst).1
    have hw := (sound e.graph).storable _ _ hl
    have hends := anchored.toCanonical.distance?_ends hl
    obtain ⟨hsrc, hdst⟩ := anchored.live _ _ hl
    obtain ⟨a, ha⟩ := h.covers _ hsrc
    obtain ⟨b, hb⟩ := h.covers _ hdst
    have hk (c : B) : place c ≠ k.vertex := (Graph.ne_of_not_taken joins.free (h.live c)).symm
    obtain ⟨hlightest, hdist⟩ := Graph.lightest_view (sound e.graph) hfirst hends ha hb
    refine .inr ⟨_, Graph.moved place e.link k.vertex, rfl, ?_, a, b, hlightest, ?_, ?_⟩
    · rw [becomes.graph]
      exact h.contract joins.left joins.right joins.free
    · rw [hdist]
      exact (lt_iff_rank (ranked_of_storable hw) (ranked_of_storable ht)).mp weight
    · rw [becomes.graph]
      exact Graph.view_contract (sound e.graph) (anchored.contracts hl joins.free) hw hends ha hb hk

/-- A drain joins nearest blocks until none are near enough. If its ties are harmless, they are so
among the blocks. -/
theorem run_loop_view {n merges stale : Nat} {r : Nat × Nat × StopReason Binary64}
    (h : (loop g t n merges stale).run m = (.ok r, m')) (sound : m.Sound)
    (anchored : (m.store.graph g).Anchored) (ht : Weight.storable t = true)
    (htracks : (m.store.graph g).Tracks base place) :
    (∃ place', (m'.store.graph g).Tracks base place' ∧
      ReflTransGen (Web.Step (rank t)) ((m.store.graph g).view place)
        ((m'.store.graph g).view place') ∧
      ((m'.store.graph g).view place').Drained (rank t)) ∧
    ((Throughout g t m fun m₁ => (m₁.store.graph g).TiesHarmless t) →
      ((m.store.graph g).view place).Calm (rank t)) := by
  induction n generalizing m merges stale place with
  | zero => cases h
  | succ n ih =>
    unfold loop at h
    obtain ⟨s, m₁, hstep, hrest⟩ := run_bind_eq_ok.mp h
    have hstepped := (run_step_ok hstep).2
    rcases hstepped.view sound anchored ht htracks with
      ⟨⟨stop, rfl⟩, rfl, hdrained⟩ | ⟨x, place₁, rfl, htracks₁, hfirst⟩
    · cases hrest
      exact ⟨⟨place, htracks, .refl, hdrained⟩, fun _ => .drained hdrained⟩
    · obtain ⟨⟨place', htracks', hlater, hdrained⟩, hcalm⟩ :=
        ih hrest (hstepped.sound sound) (hstepped.anchored anchored) htracks₁
      -- The first step goes before the later ones, and its ties are harmless like theirs.
      refine ⟨⟨place', htracks', .head hfirst hlater, hdrained⟩, fun hharmless => ?_⟩
      rw [throughout_next hstep] at hharmless
      refine .step ?_ hfirst (hcalm hharmless.2)
      obtain ⟨u, v, huv, hlt, -⟩ := hfirst
      refine hharmless.1.view (sound g) anchored htracks.covers ht fun a b hab => ?_
      rw [hab.dist_eq huv]
      exact hlt

theorem run_cluster_view {r : DrainReport Binary64} (h : m.cluster g t = (.ok r, m'))
    (sound : m.Sound) (anchored : (m.store.graph g).Anchored) (ht : Weight.bounding t = true)
    (htracks : (m.store.graph g).Tracks base place) :
    r.clusters = m'.store.clusters g ∧
    (∃ place', (m'.store.graph g).Tracks base place' ∧
      ReflTransGen (Web.Step (rank t)) ((m.store.graph g).view place)
        ((m'.store.graph g).view place') ∧
      ((m'.store.graph g).view place').Drained (rank t)) ∧
    ((Throughout g t m fun m₁ => (m₁.store.graph g).TiesHarmless t) →
      ((m.store.graph g).view place).Calm (rank t)) := by
  rw [run_cluster_eq ht] at h
  split at h
  · rename_i merges stale stop m₁ hloop
    cases h
    exact ⟨rfl, run_loop_view hloop sound anchored (Weight.storable_of_bounding ht) htracks⟩
  · cases h
  · cases h

/-- What a merge leaves to be shown. -/
theorem throughout_of_merge {P : Memory Binary64 → Prop}
    (h : ((step g t).run m).1.meets Step.isMerge = true) :
    Throughout g t m P ↔ P m ∧ Throughout g t ((step g t).run m).2 P := by
  rcases hrun : (step g t).run m with ⟨o, m₁⟩
  rw [hrun] at h
  obtain ⟨s, rfl, -⟩ := Outcome.meets_iff.mp h
  exact throughout_next hrun

theorem throughout_of_done {P : Memory Binary64 → Prop}
    (h : ((step g t).run m).1.meets (fun s => decide (s.state = .done)) = true) :
    Throughout g t m P ↔ P m := by
  rcases hrun : (step g t).run m with ⟨o, m₁⟩
  rw [hrun] at h
  obtain ⟨s, rfl, hs⟩ := Outcome.meets_iff.mp h
  exact throughout_stop hrun (of_decide_eq_true hs)

end Drain

open Drain

/-- The order of ties does not matter as long as they do not get in each other's way: the drains of
two graphs that are equal up to the names of their vertices then end with the same member sets,
whichever of the lightest edges each of them takes. -/
theorem drain_harmless_ties {m m' m₁ m₁' : Memory Binary64} {g g' : GraphId} {t : Binary64}
    {r r' : DrainReport Binary64} {σ : Equiv.Perm VertexId} (sound : m.Sound) (sound' : m'.Sound)
    (anchored : (m.store.graph g).Anchored) (anchored' : (m'.store.graph g').Anchored)
    (renamed : (m.store.graph g).RenamedBy σ (m'.store.graph g')) (ht : Weight.bounding t = true)
    (drained : m.cluster g t = (.ok r, m₁)) (drained' : m'.cluster g' t = (.ok r', m₁'))
    (harmless : Throughout g t m fun m₂ => (m₂.store.graph g).TiesHarmless t) :
    ∀ s, s ∈ r.clusters.map (fun p => p.2.members) ↔ s ∈ r'.clusters.map fun p => p.2.members := by
  have hself : (m.store.graph g).RenamedBy (Equiv.refl _) (m.store.graph g) :=
    ⟨fun _ => rfl, fun _ _ => rfl⟩
  obtain ⟨hreport, ⟨place, htracks, hrun, hend⟩, hcalm⟩ :=
    run_cluster_view drained sound anchored ht hself.tracks
  obtain ⟨hreport', ⟨place', htracks', hrun', hend'⟩, -⟩ :=
    run_cluster_view drained' sound' anchored' ht renamed.tracks
  rw [renamed.view] at hrun'
  have hview := (hcalm harmless).unique hrun hend hrun' hend'
  intro s
  rw [hreport, hreport']
  exact ⟨htracks.members_mem htracks' hview, htracks'.members_mem htracks hview.symm⟩

/-- Three entities in a row: 0.05 from the first to the second and from the second to the third, and
0.2 from the first to the third. -/
def tiedTriangle (x y z : BitVec 128) : Graph Binary64 :=
  let v (n : BitVec 128) : VertexId := ⟨⟨n⟩⟩
  let e (n : BitVec 128) : EntityKey := ⟨⟨⟨7⟩⟩, ⟨⟨n⟩⟩⟩
  let G : Graph Binary64 := ((Graph.empty.ensure (v 1) (e x)).ensure (v 2) (e y)).ensure (v 3) (e z)
  ((G.putLink ⟨v 1, v 2⟩ (.ofDecimal false ⟨5, -2⟩)).putLink ⟨v 2, v 3⟩
    (.ofDecimal false ⟨5, -2⟩)).putLink ⟨v 1, v 3⟩ (.ofDecimal false ⟨2, -1⟩)

theorem tiedTriangle_intact : (tiedTriangle 1 2 3).Intact ∧ (tiedTriangle 3 2 1).Intact := by
  constructor
  all_goals
    refine .putLink (.putLink (.putLink
      (((Graph.Intact.empty.ensure _ _).ensure _ _).ensure _ _) ?_ ?_ ?_ ?_) ?_ ?_ ?_ ?_) ?_ ?_ ?_ ?_
  all_goals decide +kernel

/-- Read from either end the row is the same. -/
theorem tiedTriangle_renamed :
    (tiedTriangle 1 2 3).RenamedBy (Equiv.swap ⟨⟨1⟩⟩ ⟨⟨3⟩⟩) (tiedTriangle 3 2 1) := by
  refine Graph.RenamedBy.of_toList tiedTriangle_intact.1.toAnchored
    tiedTriangle_intact.2.toAnchored ?_ ?_ ?_
  all_goals decide +kernel

/-- The lightest edges of the row share the vertex in its middle. Its drain joins the middle to the
first entity or to the last, whichever of the two edges comes first, and then nothing is near
enough to the union. -/
theorem tiedTriangle_diverges :
    let m : Memory Binary64 := .ofGraph ⟨⟨1⟩⟩ (tiedTriangle 1 2 3)
    let m' : Memory Binary64 := .ofGraph ⟨⟨1⟩⟩ (tiedTriangle 3 2 1)
    m.Sound ∧ m'.Sound ∧ (m.store.graph ⟨⟨1⟩⟩).Anchored ∧ (m'.store.graph ⟨⟨1⟩⟩).Anchored ∧
    (m.store.graph ⟨⟨1⟩⟩).RenamedBy (Equiv.swap ⟨⟨1⟩⟩ ⟨⟨3⟩⟩) (m'.store.graph ⟨⟨1⟩⟩) ∧
    Weight.bounding defaultThreshold = true ∧
    ∃ r m₁ r' m₁', m.cluster ⟨⟨1⟩⟩ defaultThreshold = (.ok r, m₁) ∧
      m'.cluster ⟨⟨1⟩⟩ defaultThreshold = (.ok r', m₁') ∧
      ¬ ∀ s, s ∈ r.clusters.map (fun p => p.2.members) ↔
        s ∈ r'.clusters.map fun p => p.2.members := by
  intro m m'
  have ht : Weight.bounding defaultThreshold = true := by decide +kernel
  let first : SortedSet EntityKey := .ofList [⟨⟨⟨7⟩⟩, ⟨⟨1⟩⟩⟩, ⟨⟨⟨7⟩⟩, ⟨⟨2⟩⟩⟩]
  have hrun : (m.cluster ⟨⟨1⟩⟩ defaultThreshold).1.meets
      (fun r => decide (first ∈ r.clusters.map fun p => p.2.members)) = true := by decide +kernel
  have hrun' : (m'.cluster ⟨⟨1⟩⟩ defaultThreshold).1.meets
      (fun r => decide (first ∉ r.clusters.map fun p => p.2.members)) = true := by decide +kernel
  rcases h : m.cluster ⟨⟨1⟩⟩ defaultThreshold with ⟨o, m₁⟩
  rcases h' : m'.cluster ⟨⟨1⟩⟩ defaultThreshold with ⟨o', m₁'⟩
  rw [h] at hrun
  rw [h'] at hrun'
  obtain ⟨r, rfl, hr⟩ := Outcome.meets_iff.mp hrun
  obtain ⟨r', rfl, hr'⟩ := Outcome.meets_iff.mp hrun'
  refine ⟨Memory.sound_ofGraph tiedTriangle_intact.1, Memory.sound_ofGraph tiedTriangle_intact.2,
    Memory.anchored_ofGraph tiedTriangle_intact.1, Memory.anchored_ofGraph tiedTriangle_intact.2,
    ?_, ht, r, m₁, r', m₁', rfl, rfl, fun hsame => ?_⟩
  · rw [Memory.graph_ofGraph, Memory.graph_ofGraph]
    exact tiedTriangle_renamed
  · exact of_decide_eq_true hr' ((hsame first).mp (of_decide_eq_true hr))

/-- Four entities in a row: the first two and the last two are at 0.05, and those in the middle at
0.08. -/
def tiedPairs (x y z u : BitVec 128) : Graph Binary64 :=
  let v (n : BitVec 128) : VertexId := ⟨⟨n⟩⟩
  let e (n : BitVec 128) : EntityKey := ⟨⟨⟨7⟩⟩, ⟨⟨n⟩⟩⟩
  let G : Graph Binary64 := (((Graph.empty.ensure (v 1) (e x)).ensure (v 2) (e y)).ensure (v 3)
    (e z)).ensure (v 4) (e u)
  ((G.putLink ⟨v 1, v 2⟩ (.ofDecimal false ⟨5, -2⟩)).putLink ⟨v 3, v 4⟩
    (.ofDecimal false ⟨5, -2⟩)).putLink ⟨v 2, v 3⟩ (.ofDecimal false ⟨8, -2⟩)

theorem tiedPairs_intact : (tiedPairs 1 2 3 4).Intact ∧ (tiedPairs 4 3 2 1).Intact := by
  constructor
  all_goals
    refine .putLink (.putLink (.putLink
      ((((Graph.Intact.empty.ensure _ _).ensure _ _).ensure _ _).ensure _ _) ?_ ?_ ?_ ?_)
      ?_ ?_ ?_ ?_) ?_ ?_ ?_ ?_
  all_goals decide +kernel

def reversal : Equiv.Perm VertexId := (Equiv.swap ⟨⟨1⟩⟩ ⟨⟨4⟩⟩).trans (Equiv.swap ⟨⟨2⟩⟩ ⟨⟨3⟩⟩)

theorem tiedPairs_renamed : (tiedPairs 1 2 3 4).RenamedBy reversal (tiedPairs 4 3 2 1) := by
  refine Graph.RenamedBy.of_toList tiedPairs_intact.1.toAnchored tiedPairs_intact.2.toAnchored
    ?_ ?_ ?_
  all_goals decide +kernel

theorem tiedPairs_harmless : Throughout ⟨⟨1⟩⟩ defaultThreshold
    (.ofGraph ⟨⟨1⟩⟩ (tiedPairs 1 2 3 4))
    fun m => (m.store.graph ⟨⟨1⟩⟩).TiesHarmless defaultThreshold := by
  rw [throughout_of_merge (by decide +kernel), throughout_of_merge (by decide +kernel),
    throughout_of_done (by decide +kernel)]
  decide +kernel

/-- Two pairs with one edge between them are joined in either order. -/
theorem tiedPairs_agree :
    let m : Memory Binary64 := .ofGraph ⟨⟨1⟩⟩ (tiedPairs 1 2 3 4)
    let m' : Memory Binary64 := .ofGraph ⟨⟨1⟩⟩ (tiedPairs 4 3 2 1)
    m.Sound ∧ m'.Sound ∧ (m.store.graph ⟨⟨1⟩⟩).Anchored ∧ (m'.store.graph ⟨⟨1⟩⟩).Anchored ∧
    (m.store.graph ⟨⟨1⟩⟩).RenamedBy reversal (m'.store.graph ⟨⟨1⟩⟩) ∧
    Weight.bounding defaultThreshold = true ∧
    (Throughout ⟨⟨1⟩⟩ defaultThreshold m fun m₂ =>
      (m₂.store.graph ⟨⟨1⟩⟩).TiesHarmless defaultThreshold) ∧
    ∃ r m₁ r' m₁', m.cluster ⟨⟨1⟩⟩ defaultThreshold = (.ok r, m₁) ∧
      m'.cluster ⟨⟨1⟩⟩ defaultThreshold = (.ok r', m₁') ∧ r.merges = 2 ∧
      ∀ s, s ∈ r.clusters.map (fun p => p.2.members) ↔
        s ∈ r'.clusters.map fun p => p.2.members := by
  intro m m'
  have ht : Weight.bounding defaultThreshold = true := by decide +kernel
  have hanchored := Memory.anchored_ofGraph (g := ⟨⟨1⟩⟩) tiedPairs_intact.1
  have hanchored' := Memory.anchored_ofGraph (g := ⟨⟨1⟩⟩) tiedPairs_intact.2
  have hrenamed : (m.store.graph ⟨⟨1⟩⟩).RenamedBy reversal (m'.store.graph ⟨⟨1⟩⟩) := by
    rw [Memory.graph_ofGraph, Memory.graph_ofGraph]
    exact tiedPairs_renamed
  have hsound : m.Sound := Memory.sound_ofGraph tiedPairs_intact.1
  have hsound' : m'.Sound := Memory.sound_ofGraph tiedPairs_intact.2
  have hrun : (m.cluster ⟨⟨1⟩⟩ defaultThreshold).1.meets (fun r => decide (r.merges = 2)) = true ∧
      (m'.cluster ⟨⟨1⟩⟩ defaultThreshold).1.meets (fun _ => true) = true := by decide +kernel
  rcases h : m.cluster ⟨⟨1⟩⟩ defaultThreshold with ⟨o, m₁⟩
  rcases h' : m'.cluster ⟨⟨1⟩⟩ defaultThreshold with ⟨o', m₁'⟩
  rw [h, h'] at hrun
  obtain ⟨r, rfl, hr⟩ := Outcome.meets_iff.mp hrun.1
  obtain ⟨r', rfl, -⟩ := Outcome.meets_iff.mp hrun.2
  have hsame := drain_harmless_ties hsound hsound' hanchored hanchored' hrenamed ht h h'
    tiedPairs_harmless
  exact ⟨hsound, hsound', hanchored, hanchored', hrenamed, ht, tiedPairs_harmless, r, m₁, r', m₁',
    rfl, rfl, of_decide_eq_true hr, hsame⟩

end RecordLinkage
