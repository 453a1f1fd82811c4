import RecordLinkage.Proofs.Sorted.Ext
import RecordLinkage.Proofs.Ties.View
import Mathlib.Logic.Equiv.Basic

namespace RecordLinkage

open Binary64

theorem Cluster.same_iff {c c' : Cluster Binary64} :
    c.same c' = true ↔ c.diameter.same c'.diameter = true ∧ c.members = c'.members := by
  rw [same, Bool.and_eq_true, decide_eq_true_eq]

def carry (σ : Equiv.Perm VertexId) (k k' : VertexId) : Equiv.Perm VertexId :=
  σ.trans (Equiv.swap (σ k) k')

section Carry

variable {σ : Equiv.Perm VertexId} {k k' v : VertexId}

@[simp] theorem carry_self (σ : Equiv.Perm VertexId) (k k' : VertexId) : carry σ k k' k = k' :=
  Equiv.swap_apply_left ..

theorem carry_of_ne (hk : v ≠ k) (hk' : σ v ≠ k') : carry σ k k' v = σ v :=
  Equiv.swap_apply_of_ne_of_ne (σ.injective.ne hk) hk'

end Carry

def Link.Images (σ : Equiv.Perm VertexId) (l l' : Link) : Prop :=
  l'.src = σ l.src ∧ l'.dst = σ l.dst ∨ l'.src = σ l.dst ∧ l'.dst = σ l.src

theorem Link.Images.symm {σ : Equiv.Perm VertexId} {l l' : Link} (h : l'.Images σ.symm l) :
    l.Images σ l' := by
  rcases h with ⟨hs, hd⟩ | ⟨hs, hd⟩
  · exact .inl (by simp [hs, hd])
  · exact .inr (by simp [hs, hd])

theorem Link.Images.end_iff {σ : Equiv.Perm VertexId} {l l' : Link} (h : l.Images σ l')
    (v : VertexId) : σ v = l'.src ∨ σ v = l'.dst ↔ v = l.src ∨ v = l.dst := by
  rcases h with ⟨hs, hd⟩ | ⟨hs, hd⟩
  · rw [hs, hd, σ.injective.eq_iff, σ.injective.eq_iff]
  · rw [hs, hd, σ.injective.eq_iff, σ.injective.eq_iff, or_comm]

theorem Link.Images.not_end {σ : Equiv.Perm VertexId} {l l' : Link} (h : l.Images σ l')
    {v : VertexId} (hs : v ≠ l.src) (hd : v ≠ l.dst) : σ v ≠ l'.src ∧ σ v ≠ l'.dst :=
  not_or.mp (mt (h.end_iff v).mp (not_or.mpr ⟨hs, hd⟩))

theorem Link.exists_images (σ : Equiv.Perm VertexId) {l : Link} (hne : l.src ≠ l.dst) :
    ∃ l', Link.between? (σ l.src) (σ l.dst) = some l' ∧ l.Images σ l' := by
  obtain ⟨l', hl'⟩ := exists_between? (σ.injective.ne hne)
  exact ⟨l', hl', (between?_spec hl').2⟩

namespace Graph

/-- Two graphs differ in the names of vertices only. Members are the same, and the numbers are equal
as numbers. -/
structure Mirrors (σ : Equiv.Perm VertexId) (G G' : Graph Binary64) : Prop where
  live : ∀ v, G'.live (σ v) = G.live v
  cluster : ∀ v c c', G.cluster? v = some c → G'.cluster? (σ v) = some c' → c.same c' = true
  distance : ∀ u v, SameWeight (G.distance? u v) (G'.distance? (σ u) (σ v))

/-- The lightest weight belongs to one link only, if it is below a threshold. -/
def Untied {ω : Type} [Weight ω] (G : Graph ω) (t : ω) : Prop :=
  ∀ p ∈ G.edges.lightest?, Weight.lt p.1 t = true →
    ∀ q ∈ G.edges.weights.toList, Weight.le q.2 p.1 → q.1 = p.2

instance {ω : Type} [Weight ω] (G : Graph ω) (t : ω) : Decidable (G.Untied t) :=
  inferInstanceAs (Decidable (∀ p ∈ G.edges.lightest?, _ →
    ∀ q ∈ G.edges.weights.toList, Weight.le _ _ → _ = _))

variable {σ : Equiv.Perm VertexId} {G G' : Graph Binary64} {u v k k' : VertexId} {l l' : Link}
  {t w w' : Binary64} {x y x' y' : Cluster Binary64}

/-- Between graphs whose links join live vertices it is enough to compare live vertices. -/
theorem Mirrors.of_live (anchored : G.Anchored) (anchored' : G'.Anchored)
    (hto : ∀ v c, G.cluster? v = some c → ∃ c', G'.cluster? (σ v) = some c' ∧ c.same c' = true)
    (hfrom : ∀ v, G'.live v = true → ∃ u, σ u = v ∧ G.live u = true)
    (hdistance : ∀ u v, G.live u = true → G.live v = true →
      SameWeight (G.distance? u v) (G'.distance? (σ u) (σ v))) : G.Mirrors σ G' := by
  have hlive (v : VertexId) : G'.live (σ v) = G.live v := by
    rw [Bool.eq_iff_iff]
    constructor
    · intro hv
      obtain ⟨u, hu, hlive⟩ := hfrom _ hv
      rwa [← σ.injective hu]
    · intro hv
      obtain ⟨c, hc⟩ := live_iff.mp hv
      obtain ⟨c', hc', -⟩ := hto v c hc
      exact live_iff.mpr ⟨c', hc'⟩
  refine ⟨hlive, fun v c c' hc hc' => ?_,
    anchored.compare_distances anchored' hlive trivial hdistance⟩
  obtain ⟨c'', hc'', hsame⟩ := hto v c hc
  cases hc'.symm.trans hc''
  exact hsame

/-- What is listed of two such graphs tells whether they mirror each other. -/
theorem Mirrors.of_toList (anchored : G.Anchored) (anchored' : G'.Anchored)
    (hto : ∀ p ∈ G.clusters.toList, ∃ c' ∈ G'.cluster? (σ p.1), p.2.same c' = true)
    (hfrom : ∀ p ∈ G'.clusters.toList, G.live (σ.symm p.1) = true)
    (hdistance : ∀ p ∈ G.clusters.toList, ∀ q ∈ G.clusters.toList,
      SameWeight (G.distance? p.1 q.1) (G'.distance? (σ p.1) (σ q.1))) : G.Mirrors σ G' := by
  refine .of_live anchored anchored' (fun v c hc => hto (v, c) (SortedMap.mem_toList.mpr hc)) ?_ ?_
  · intro v hv
    obtain ⟨c, hc⟩ := live_iff.mp hv
    exact ⟨σ.symm v, σ.apply_symm_apply v, hfrom (v, c) (SortedMap.mem_toList.mpr hc)⟩
  · intro u v hu hv
    obtain ⟨x, hx⟩ := live_iff.mp hu
    obtain ⟨y, hy⟩ := live_iff.mp hv
    exact hdistance (u, x) (SortedMap.mem_toList.mpr hx) (v, y) (SortedMap.mem_toList.mpr hy)

theorem Mirrors.symm (h : G.Mirrors σ G') : G'.Mirrors σ.symm G where
  live v := by rw [← h.live, σ.apply_symm_apply]
  cluster v c c' hc hc' := by
    have hback := h.cluster (σ.symm v) c' c hc'
    rw [σ.apply_symm_apply] at hback
    obtain ⟨hdiameter, hmembers⟩ := Cluster.same_iff.mp (hback hc)
    rw [same_comm] at hdiameter
    exact Cluster.same_iff.mpr ⟨hdiameter, hmembers.symm⟩
  distance u v := by
    have hback := h.distance (σ.symm u) (σ.symm v)
    rw [σ.apply_symm_apply, σ.apply_symm_apply] at hback
    exact hback.symm

structure Twins (σ : Equiv.Perm VertexId) (G G' : Graph Binary64) : Prop extends
    G.Mirrors σ G' where
  sound : G.edges.Sound
  sound' : G'.edges.Sound
  anchored : G.Anchored
  anchored' : G'.Anchored

structure Counterparts (σ : Equiv.Perm VertexId) (G G' : Graph Binary64) (l l' : Link)
    (w w' : Binary64) : Prop extends G.Twins σ G' where
  images : l.Images σ l'
  stored : G.edges.weight? l = some w
  stored' : G'.edges.weight? l' = some w'
  rank_eq : rank w = rank w'

namespace Twins

variable (h : G.Twins σ G')
include h

theorem symm : G'.Twins σ.symm G :=
  ⟨h.toMirrors.symm, h.sound', h.sound, h.anchored', h.anchored⟩

theorem distance_eq (u v : VertexId) :
    (G.distance? u v).isSome = (G'.distance? (σ u) (σ v)).isSome ∧
      rank? (G.distance? u v) = rank? (G'.distance? (σ u) (σ v)) :=
  (sameWeight_iff (ranked_distance? h.sound u v) (ranked_distance? h.sound' _ _)).mp
    (h.distance u v)

theorem exists_image (hl : G.edges.weight? l = some w) :
    ∃ l' w', G.Counterparts σ G' l l' w w' := by
  obtain ⟨l', hl', himages⟩ := Link.exists_images σ (SortKey.ne_of_lt (h.anchored.normal l w hl))
  obtain ⟨hsome, hrank⟩ := h.distance_eq l.src l.dst
  rw [h.anchored.distance?_ends hl, distance?_of_between? hl'] at hsome hrank
  obtain ⟨w', hw'⟩ := Option.isSome_iff_exists.mp hsome.symm
  rw [hw'] at hrank
  exact ⟨l', w', h, himages, hl, hw', hrank⟩

theorem rank_le_of_lightest (hl' : G'.edges.lightest? = some (w', l'))
    (hl : G.edges.weight? l = some w) : rank w' ≤ rank w := by
  obtain ⟨l₀, w₀, himage⟩ := h.exists_image hl
  rw [himage.rank_eq]
  exact (le_iff_rank (ranked_of_storable (h.sound'.storable _ _ (h.sound'.lightest hl').1))
    (ranked_of_storable (h.sound'.storable _ _ himage.stored'))).mp
      (h.sound'.le_of_lightest hl' himage.stored')

theorem lightest_eq_none (hl : G.edges.lightest? = none) : G'.edges.lightest? = none := by
  cases hl' : G'.edges.lightest? with
  | none => rfl
  | some p =>
    obtain ⟨l₀, w₀, himage⟩ := h.symm.exists_image (h.sound'.lightest hl').1
    cases (h.sound.lightest_none hl l₀).symm.trans himage.stored'

theorem exists_lightest (hl : G.edges.lightest? = some (w, l)) :
    ∃ w' l', G'.edges.lightest? = some (w', l') ∧ rank w = rank w' := by
  cases hl' : G'.edges.lightest? with
  | none => cases hl.symm.trans (h.symm.lightest_eq_none hl')
  | some p =>
    obtain ⟨w', l'⟩ := p
    exact ⟨w', l', rfl, le_antisymm (h.symm.rank_le_of_lightest hl (h.sound'.lightest hl').1)
      (h.rank_le_of_lightest hl' (h.sound.lightest hl).1)⟩

/-- Without ties the image of the lightest link is the lightest link. -/
theorem lightest_of_untied (untied : G.Untied t) (hlt : Weight.lt w t = true)
    (hl : G.edges.lightest? = some (w, l)) :
    ∃ w' l', G'.edges.lightest? = some (w', l') ∧ G.Counterparts σ G' l l' w w' := by
  obtain ⟨w', l', hl', hww⟩ := h.exists_lightest hl
  have hstored := (h.sound.lightest hl).1
  have hstored' := (h.sound'.lightest hl').1
  obtain ⟨l₀, w₀, himage⟩ := h.symm.exists_image hstored'
  have hle : Weight.le w₀ w :=
    (le_iff_rank (ranked_of_storable (h.sound.storable _ _ himage.stored'))
      (ranked_of_storable (h.sound.storable _ _ hstored))).mpr (hww.trans himage.rank_eq).ge
  obtain rfl : l₀ = l :=
    untied (w, l) hl hlt (l₀, w₀) (SortedMap.mem_toList.mpr himage.stored') hle
  exact ⟨w', l', hl', h, himage.images.symm, hstored, hstored', hww⟩

end Twins

namespace Counterparts

variable (h : G.Counterparts σ G' l l' w w')
include h

theorem ranked : w.Ranked := ranked_of_storable (h.sound.storable _ _ h.stored)

theorem ranked' : w'.Ranked := ranked_of_storable (h.sound'.storable _ _ h.stored')

/-- A vertex is as far from the union at a link as its image is from the union at the image. -/
theorem linkage_same (v : VertexId) :
    Ranked? (linkage (G.distance? l.src v) (G.distance? l.dst v) w) ∧
      Ranked? (linkage (G'.distance? l'.src (σ v)) (G'.distance? l'.dst (σ v)) w') ∧
      SameWeight (linkage (G.distance? l.src v) (G.distance? l.dst v) w)
        (linkage (G'.distance? l'.src (σ v)) (G'.distance? l'.dst (σ v)) w') := by
  have hdist (u : VertexId) := ranked_distance? h.sound u v
  have hdist' (u : VertexId) := ranked_distance? h.sound' u (σ v)
  obtain ⟨hstraight, hcrossed⟩ := sameWeight_linkage (hdist l.src) (hdist l.dst)
    (hdist' (σ l.src)) (hdist' (σ l.dst)) h.ranked h.ranked' (h.distance l.src v)
    (h.distance l.dst v) h.rank_eq
  refine ⟨(ranked_linkage (hdist _) (hdist _) h.ranked).1,
    (ranked_linkage (hdist' _) (hdist' _) h.ranked').1, ?_⟩
  rcases h.images with ⟨hs, hd⟩ | ⟨hs, hd⟩
  · rw [hs, hd]
    exact hstraight
  · rw [hs, hd]
    exact hcrossed

theorem relinks_eq (v : VertexId) : Ranked? (SortedMap.get? (G'.relinks l' w') (σ v)) ∧
    (SortedMap.get? (G.relinks l w) v).isSome =
      (SortedMap.get? (G'.relinks l' w') (σ v)).isSome ∧
    rank? (SortedMap.get? (G.relinks l w) v) =
      rank? (SortedMap.get? (G'.relinks l' w') (σ v)) := by
  by_cases hends : v = l.src ∨ v = l.dst
  · rw [h.anchored.get?_relinks_end hends,
      h.anchored'.get?_relinks_end ((h.images.end_iff v).mpr hends)]
    exact ⟨nofun, rfl, rfl⟩
  · obtain ⟨hs, hd⟩ := not_or.mp hends
    obtain ⟨hs', hd'⟩ := h.images.not_end hs hd
    obtain ⟨hranked, hranked', hsame⟩ := h.linkage_same v
    rw [sameWeight_iff hranked hranked'] at hsame
    rw [h.anchored.get?_relinks, h.anchored'.get?_relinks, if_neg (Ne.symm hs), if_neg (Ne.symm hd),
      if_neg (Ne.symm hs'), if_neg (Ne.symm hd')]
    exact ⟨hranked', hsame⟩

theorem size_relinks : (G.relinks l w).size = (G'.relinks l' w').size := by
  rw [← SortedMap.card_domain, ← SortedMap.card_domain]
  refine Finset.card_equiv σ fun v => ?_
  rw [SortedMap.mem_domain, SortedMap.mem_domain, (h.relinks_eq v).2.1]

theorem storable_relinks (hall : ∀ p ∈ (G.relinks l w).toList, Weight.storable p.2 = true) :
    ∀ p ∈ (G'.relinks l' w').toList, Weight.storable p.2 = true := by
  intro p hp
  obtain ⟨hranked', hsome, hrank⟩ := h.relinks_eq (σ.symm p.1)
  rw [σ.apply_symm_apply, SortedMap.mem_toList.mp hp] at hranked' hsome hrank
  obtain ⟨q, hq⟩ := Option.isSome_iff_exists.mp hsome
  rw [hq] at hrank
  have hrank : rank q = rank p.2 := hrank
  have hstorable := hall (σ.symm p.1, q) (SortedMap.mem_toList.mpr hq)
  exact storable_of_rank (hranked' p.2 rfl) (hrank ▸ rank_ne_top hstorable)

section Union

variable (hsrc : G.cluster? l.src = some x) (hdst : G.cluster? l.dst = some y)
  (hsrc' : G'.cluster? l'.src = some x') (hdst' : G'.cluster? l'.dst = some y')
include hsrc hdst hsrc' hdst'

theorem members_eq : x.members = x'.members ∧ y.members = y'.members ∨
    x.members = y'.members ∧ y.members = x'.members := by
  have hmembers {u : VertexId} {c c' : Cluster Binary64} (hc : G.cluster? u = some c)
      (hc' : G'.cluster? (σ u) = some c') : c.members = c'.members :=
    (Cluster.same_iff.mp (h.cluster u c c' hc hc')).2
  rcases h.images with ⟨hs, hd⟩ | ⟨hs, hd⟩
  · exact .inl ⟨hmembers hsrc (hs ▸ hsrc'), hmembers hdst (hd ▸ hdst')⟩
  · exact .inr ⟨hmembers hsrc (hd ▸ hdst'), hmembers hdst (hs ▸ hsrc')⟩

/-- The union at the image of a link is the same cluster. -/
theorem same_merged : (Cluster.merged x y w).same (.merged x' y' w') = true := by
  refine Cluster.same_iff.mpr ⟨(same_iff_rank h.ranked h.ranked').mpr h.rank_eq,
    SortedBy.ext_mem fun e => ?_⟩
  rw [Cluster.mem_merged, Cluster.mem_merged]
  rcases h.members_eq hsrc hdst hsrc' hdst' with ⟨hx, hy⟩ | ⟨hx, hy⟩
  · rw [hx, hy]
  · rw [hx, hy, or_comm]

variable (hfree : G.taken k = false) (hfree' : G'.taken k' = false)
include hfree hfree'

omit hsrc hdst hsrc' hdst' in
theorem carry_of_live (hv : G.live v = true) : carry σ k k' v = σ v ∧ σ v ≠ k' :=
  have hne : σ v ≠ k' := (ne_of_not_taken hfree' ((h.live v).trans hv)).symm
  ⟨carry_of_ne (ne_of_not_taken hfree hv).symm hne, hne⟩

omit hsrc hdst hsrc' hdst' in
theorem distance_union (hs : v ≠ l.src) (hd : v ≠ l.dst) (hv : G.live v = true) :
    SameWeight ((G.contract l w x y k).distance? k v)
      ((G'.contract l' w' x' y' k').distance? k' (σ v)) := by
  have hk := ne_of_not_taken hfree hv
  have hk' := (h.carry_of_live hfree hfree' hv).2
  obtain ⟨hs', hd'⟩ := h.images.not_end hs hd
  rw [(h.anchored.contracts h.stored hfree).distance?_union hk hs.symm hd.symm,
    (h.anchored'.contracts h.stored' hfree').distance?_union hk'.symm hs'.symm hd'.symm]
  exact (h.linkage_same v).2.2

/-- Contractions of a link and of its image mirror each other, whatever the unions are called. -/
theorem contract :
    (G.contract l w x y k).Mirrors (carry σ k k') (G'.contract l' w' x' y' k') := by
  have hold (v : VertexId) (hv : G.live v = true) := h.carry_of_live hfree hfree' hv
  have hlive (v : VertexId) := live_contract_iff (u := v) (w := w) hsrc hdst hfree
  have hlive' (v : VertexId) := live_contract_iff (u := v) (w := w') hsrc' hdst' hfree'
  refine .of_live (h.anchored.contract h.stored hsrc hdst hfree)
    (h.anchored'.contract h.stored' hsrc' hdst' hfree') ?_ ?_ ?_
  · intro v c hv
    rcases (cluster?_contract_iff hsrc hdst hfree).mp hv with ⟨rfl, rfl⟩ | ⟨-, hs, hd, hv⟩
    · exact ⟨_, (cluster?_contract_iff hsrc' hdst' hfree').mpr (.inl ⟨carry_self .., rfl⟩),
        h.same_merged hsrc hdst hsrc' hdst'⟩
    · obtain ⟨hcarry, hk'⟩ := hold v (live_iff.mpr ⟨c, hv⟩)
      obtain ⟨hs', hd'⟩ := h.images.not_end hs hd
      obtain ⟨c', hc'⟩ := live_iff.mp ((h.live v).trans (live_iff.mpr ⟨c, hv⟩))
      rw [hcarry]
      exact ⟨c', (cluster?_contract_iff hsrc' hdst' hfree').mpr (.inr ⟨hk', hs', hd', hc'⟩),
        h.cluster v c c' hv hc'⟩
  -- Every vertex of the other graph is the union there, or the image of an old one.
  · intro v hv
    rcases (hlive' v).mp hv with rfl | ⟨-, hs', hd', hv⟩
    · exact ⟨k, carry_self .., (hlive k).mpr (.inl rfl)⟩
    · obtain ⟨u, rfl⟩ := σ.surjective v
      rw [h.live] at hv
      obtain ⟨hs, hd⟩ := not_or.mp (mt (h.images.end_iff u).mpr (not_or.mpr ⟨hs', hd'⟩))
      exact ⟨u, (hold u hv).1,
        (hlive u).mpr (.inr ⟨(ne_of_not_taken hfree hv).symm, hs, hd, hv⟩)⟩
  · -- Two vertices are the union twice, the union and an old one, or both old.
    intro u v hu hv
    rcases (hlive u).mp hu with rfl | ⟨huk, hus, hud, hu'⟩ <;>
      rcases (hlive v).mp hv with rfl | ⟨hvk, hvs, hvd, hv'⟩
    · rw [distance?_self, distance?_self]
      trivial
    · rw [carry_self, (hold v hv').1]
      exact h.distance_union hfree hfree' hvs hvd hv'
    · rw [carry_self, (hold u hu').1, distance?_comm, distance?_comm _ (σ u)]
      exact h.distance_union hfree hfree' hus hud hu'
    · rw [(hold u hu').1, (hold v hv').1,
        (h.anchored.contracts h.stored hfree).distance?_other huk hvk ⟨hus, hud⟩ ⟨hvs, hvd⟩,
        (h.anchored'.contracts h.stored' hfree').distance?_other (hold u hu').2 (hold v hv').2
          (h.images.not_end hus hud) (h.images.not_end hvs hvd)]
      exact h.distance u v

theorem twins_contract (hall : ∀ p ∈ (G.relinks l w).toList, Weight.storable p.2 = true) :
    (G.contract l w x y k).Twins (carry σ k k') (G'.contract l' w' x' y' k') :=
  ⟨h.contract hsrc hdst hsrc' hdst' hfree hfree', sound_contract h.sound hall,
    sound_contract h.sound' (h.storable_relinks hall),
    h.anchored.contract h.stored hsrc hdst hfree, h.anchored'.contract h.stored' hsrc' hdst' hfree'⟩

end Union

end Counterparts

end Graph

end RecordLinkage
