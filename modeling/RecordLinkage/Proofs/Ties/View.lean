import RecordLinkage.Proofs.Graph.Anchored
import RecordLinkage.Proofs.Graph.Partition
import RecordLinkage.Proofs.Ties.Calm
import RecordLinkage.Proofs.Weight.Exact
import RecordLinkage.Proofs.Weight.Ranks

namespace RecordLinkage

open Binary64

def Link.Apart (l l' : Link) : Prop :=
  l.src ≠ l'.src ∧ l.src ≠ l'.dst ∧ l.dst ≠ l'.src ∧ l.dst ≠ l'.dst

instance (l l' : Link) : Decidable (Link.Apart l l') := inferInstanceAs (Decidable (_ ∧ _ ∧ _ ∧ _))

namespace Graph

variable {B : Type} {G : Graph Binary64} {place : B → VertexId} {a b c d : B} {l l' : Link}
  {k u v : VertexId} {x y : Cluster Binary64} {t w w' : Binary64}

theorem ranked_distance? (h : G.edges.Sound) (u v : VertexId) : Ranked? (G.distance? u v) :=
  fun _ hw => ranked_of_storable (storable_distance? h hw)

/-- What is at a place is a block, and blocks are as far from each other as their places. -/
def view (G : Graph Binary64) (place : B → VertexId) : Web B Rank where
  same := Setoid.ker place
  dist a b := rank? (G.distance? (place a) (place b))
  dist_comm a b := by rw [distance?_comm]
  dist_congr a b c h := by rw [show place a = place b from h]
  dist_same a b h := by
    rw [show place a = place b from h, distance?_self]
    rfl

theorem same_view : (G.view place).same a b ↔ place a = place b := Iff.rfl

theorem dist_view : (G.view place).dist a b = rank? (G.distance? (place a) (place b)) := rfl

def moved (place : B → VertexId) (l : Link) (k : VertexId) (b : B) : VertexId :=
  if place b = l.src ∨ place b = l.dst then k else place b

theorem moved_of_end (h : place b = l.src ∨ place b = l.dst) : moved place l k b = k := if_pos h

theorem moved_of_not_end (h : ¬ (place b = l.src ∨ place b = l.dst)) :
    moved place l k b = place b := if_neg h

theorem view_contract (hG : G.edges.Sound) (hc : G.Contracts l k) (hw : Weight.storable w = true)
    (hl : G.distance? l.src l.dst = some w) (ha : place a = l.src) (hb : place b = l.dst)
    (hk : ∀ c, place c ≠ k) :
    (G.contract l w x y k).view (moved place l k) = (G.view place).merge a b := by
  have hmem (c : B) : ((G.view place).pair a b).mem c ↔ place c = l.src ∨ place c = l.dst := by
    rw [Web.mem_pair, same_view, same_view, ha, hb]
  have hab : (G.view place).dist a b = rank w := by
    rw [dist_view, ha, hb, hl]
    rfl
  -- Between a block of the union and another one, the linkage of weights is the detour of ranks.
  have hfar (c d : B) (hc' : place c = l.src ∨ place c = l.dst)
      (hd : ¬ (place d = l.src ∨ place d = l.dst)) :
      rank? ((G.contract l w x y k).distance? (moved place l k c) (moved place l k d)) =
        ((G.view place).merge a b).dist c d := by
    have hends := not_or.mp hd
    rw [moved_of_end hc', moved_of_not_end hd, hc.distance?_union (hk d).symm (Ne.symm hends.1)
      (Ne.symm hends.2), Web.dist_merge_far ((hmem c).mpr hc') (mt (hmem d).mp hd), hab, dist_view,
      dist_view, ha, hb]
    exact (ranked_linkage (ranked_distance? hG _ _) (ranked_distance? hG _ _)
      (ranked_of_storable hw)).2
  -- Both webs are compared block by block, inside the union and outside of it.
  apply Web.ext
  · ext c d
    rw [same_view, Web.same_merge, hmem, hmem, same_view]
    by_cases hc' : place c = l.src ∨ place c = l.dst <;>
      by_cases hd : place d = l.src ∨ place d = l.dst
    · simp only [moved_of_end hc', moved_of_end hd, hc', hd, and_self, or_true]
    · simp only [moved_of_end hc', moved_of_not_end hd, hd, and_false, or_false]
      refine iff_of_false (hk d).symm fun heq => hd (heq ▸ hc')
    · simp only [moved_of_not_end hc', moved_of_end hd, hc', false_and, or_false]
      refine iff_of_false (hk c) fun heq => hc' (heq ▸ hd)
    · simp only [moved_of_not_end hc', moved_of_not_end hd, hc', false_and, or_false]
  · funext c d
    by_cases hc' : place c = l.src ∨ place c = l.dst <;>
      by_cases hd : place d = l.src ∨ place d = l.dst
    · rw [dist_view, moved_of_end hc', moved_of_end hd, distance?_self, Web.merge,
        Web.dist_collapse_same ((hmem c).mpr hc') ((hmem d).mpr hd)]
      rfl
    · exact hfar c d hc' hd
    · rw [Web.dist_comm, Web.dist_comm _ c d]
      exact hfar d c hd hc'
    · have hc'' := not_or.mp hc'
      have hd' := not_or.mp hd
      rw [dist_view, moved_of_not_end hc', moved_of_not_end hd, hc.distance?_other (hk c) (hk d)
        hc'' hd', Web.dist_merge_other (mt (hmem c).mp hc') (mt (hmem d).mp hd), dist_view]

theorem rank_le_dist (hG : G.edges.Sound) (hl : G.edges.lightest? = some (w, l)) (a b : B) :
    rank w ≤ (G.view place).dist a b := by
  rw [dist_view]
  cases hd : G.distance? (place a) (place b) with
  | none => exact le_top
  | some w' =>
    have hw := hG.storable _ _ (hG.lightest hl).1
    have hw' := storable_distance? hG hd
    obtain ⟨l', -, hl'⟩ := Option.bind_eq_some_iff.mp hd
    exact (le_iff_rank (ranked_of_storable hw) (ranked_of_storable hw')).mp
      (hG.le_of_lightest hl hl')

theorem lightest_view (hG : G.edges.Sound) (hl : G.edges.lightest? = some (w, l))
    (hd : G.distance? l.src l.dst = some w) (ha : place a = l.src) (hb : place b = l.dst) :
    (G.view place).Lightest a b ∧ (G.view place).dist a b = rank w := by
  have hab : (G.view place).dist a b = rank w := by
    rw [dist_view, ha, hb, hd]
    rfl
  refine ⟨⟨?_, fun c d => ?_⟩, hab⟩
  · rw [hab]
    exact rank_ne_top (hG.storable _ _ (hG.lightest hl).1)
  · rw [hab]
    exact rank_le_dist hG hl c d

/-- The ends of a link are equally far from every other vertex. -/
def AlikeEnds {ω : Type} [Weight ω] (G : Graph ω) (l : Link) : Prop :=
  ∀ p ∈ G.clusters.toList, p.1 ≠ l.src → p.1 ≠ l.dst →
    SameWeight (G.distance? l.src p.1) (G.distance? l.dst p.1)

/-- The unions at two links of one weight come to lie at the same weight from each other, whichever
is made first. -/
def EitherFirst {ω : Type} [Weight ω] (G : Graph ω) (l l' : Link) (w : ω) : Prop :=
  SameWeight
    (linkage (linkage (G.distance? l.src l'.src) (G.distance? l.dst l'.src) w)
      (linkage (G.distance? l.src l'.dst) (G.distance? l.dst l'.dst) w) w)
    (linkage (linkage (G.distance? l.src l'.src) (G.distance? l.src l'.dst) w)
      (linkage (G.distance? l.dst l'.src) (G.distance? l.dst l'.dst) w) w)

/-- Two links of the lightest weight do not get in each other's way: the weight is zero, or each of
them joins vertices that are equally far from all others, or they have no end in common and may be
made in either order. -/
def TieHarmless {ω : Type} [Weight ω] (G : Graph ω) (l l' : Link) (w : ω) : Prop :=
  Weight.le w Weight.zero ∨ l = l' ∨ G.AlikeEnds l ∧ G.AlikeEnds l' ∨
    Link.Apart l l' ∧ G.EitherFirst l l' w

/-- No two of the links that share the lightest weight get in each other's way, if that weight is
below a threshold. -/
def TiesHarmless {ω : Type} [Weight ω] (G : Graph ω) (t : ω) : Prop :=
  ∀ p ∈ G.edges.weights.toList, ∀ q ∈ G.edges.weights.toList, Weight.lt p.2 t = true →
    (∀ r ∈ G.edges.weights.toList, Weight.le p.2 r.2) → Weight.le q.2 p.2 →
      G.TieHarmless p.1 q.1 p.2

section Decidable

variable {ω : Type} [Weight ω]

instance (G : Graph ω) (l : Link) : Decidable (G.AlikeEnds l) :=
  inferInstanceAs (Decidable (∀ p ∈ G.clusters.toList, _ → _ → SameWeight _ _))

instance (G : Graph ω) (l l' : Link) (w : ω) : Decidable (G.EitherFirst l l' w) :=
  inferInstanceAs (Decidable (SameWeight _ _))

instance (G : Graph ω) (l l' : Link) (w : ω) : Decidable (G.TieHarmless l l' w) :=
  inferInstanceAs (Decidable (Weight.le _ _ ∨ _ = _ ∨ AlikeEnds _ _ ∧ AlikeEnds _ _ ∨
    Link.Apart _ _ ∧ EitherFirst _ _ _ _))

instance (G : Graph ω) (t : ω) : Decidable (G.TiesHarmless t) :=
  inferInstanceAs (Decidable (∀ p ∈ G.edges.weights.toList, ∀ q ∈ G.edges.weights.toList,
    _ → (∀ r ∈ G.edges.weights.toList, Weight.le _ _) → Weight.le _ _ → TieHarmless _ _ _ _))

end Decidable

theorem eitherFirst_iff (hG : G.edges.Sound) (hw : Weight.storable w = true) :
    G.EitherFirst l l' w ↔ Detour.Interchange (rank? (G.distance? l.src l'.src))
      (rank? (G.distance? l.dst l'.src)) (rank? (G.distance? l.src l'.dst))
      (rank? (G.distance? l.dst l'.dst)) (rank w) := by
  have hdist (u v : VertexId) := ranked_distance? hG u v
  have hranked := ranked_of_storable hw
  obtain ⟨hone, hrank⟩ := ranked_crossing (hdist l.src l'.src) (hdist l.dst l'.src)
    (hdist l.src l'.dst) (hdist l.dst l'.dst) hranked
  obtain ⟨htwo, hrank'⟩ := ranked_crossing (hdist l.src l'.src) (hdist l.src l'.dst)
    (hdist l.dst l'.src) (hdist l.dst l'.dst) hranked
  rw [EitherFirst, sameWeight_iff hone htwo, hrank, hrank', Detour.Interchange,
    and_iff_right_iff_imp]
  intro _
  rw [Bool.eq_iff_iff]
  simp only [isSome_linkage]
  exact or_or_or_comm

/-- Two links with at most two others between their ends may be made in either order. -/
theorem eitherFirst_of_sparse (hG : G.edges.Sound) (hw : Weight.storable w = true)
    (h : [G.distance? l.src l'.src, G.distance? l.dst l'.src, G.distance? l.src l'.dst,
      G.distance? l.dst l'.dst].countP Option.isSome ≤ 2) : G.EitherFirst l l' w := by
  rw [eitherFirst_iff hG hw]
  apply Detour.interchange_of_two_top
  generalize G.distance? l.src l'.src = p, G.distance? l.dst l'.src = q,
    G.distance? l.src l'.dst = r, G.distance? l.dst l'.dst = s at h
  cases p <;> cases q <;> cases r <;> cases s <;> simp [rank?] at h ⊢

theorem AlikeEnds.alike (hG : G.edges.Sound) (hanchored : G.Anchored)
    (h : G.AlikeEnds l) (ha : place a = l.src) (hb : place b = l.dst) :
    (G.view place).Alike a b := by
  intro c hc
  rw [Web.mem_pair, same_view, same_view, ha, hb, not_or] at hc
  rw [dist_view, dist_view, ha, hb]
  cases hlive : G.cluster? (place c) with
  | none =>
    rw [distance?_comm, hanchored.distance?_of_gone hlive, distance?_comm,
      hanchored.distance?_of_gone hlive]
  | some x =>
    have hsame := h (place c, x) (SortedMap.mem_toList.mpr hlive) hc.1 hc.2
    exact ((sameWeight_iff (ranked_distance? hG _ _) (ranked_distance? hG _ _)).mp hsame).2

/-- Blocks at the ends of links that do not get in each other's way. -/
theorem TieHarmless.easy (hG : G.edges.Sound) (hanchored : G.Anchored)
    (hw : Weight.storable w = true)
    (h : G.TieHarmless l l' w) (hab : (G.view place).dist a b = rank w) (ha : place a = l.src)
    (hb : place b = l.dst) (hc : place c = l'.src) (hd : place d = l'.dst) :
    (G.view place).Easy a b c d := by
  have hranked := ranked_of_storable hw
  rcases h with hzero | rfl | ⟨halike, halike'⟩ | ⟨⟨hss, hsd, hds, hdd⟩, hacross⟩
  · have hle := (le_iff_rank hranked (ranked_of_storable (x := Weight.zero) (by decide))).mp hzero
    have hbot : rank Weight.zero = ⊥ := Fin.ext (by decide)
    rw [hbot] at hle
    exact .free (hab.trans (le_bot_iff.mp hle))
  · exact .same (ha.trans hc.symm) (hb.trans hd.symm)
  · exact .alike (halike.alike hG hanchored ha hb) (halike'.alike hG hanchored hc hd)
  · refine .apart ?_ ?_ ?_
    · rw [Web.mem_pair, same_view, same_view, ha, hb, hc]
      exact not_or.mpr ⟨hss.symm, hds.symm⟩
    · rw [Web.mem_pair, same_view, same_view, ha, hb, hd]
      exact not_or.mpr ⟨hsd.symm, hdd.symm⟩
    · rw [hab, dist_view, dist_view, dist_view, dist_view, ha, hb, hc, hd]
      exact (eitherFirst_iff hG hw).mp hacross

def Covers (G : Graph Binary64) (place : B → VertexId) : Prop :=
  ∀ v, G.live v = true → ∃ b, place b = v

/-- The lightest blocks are those at the ends of a link. -/
theorem exists_link (h : (G.view place).Lightest a b) : ∃ l w, G.edges.weight? l = some w ∧
    (G.view place).dist a b = rank w ∧
      (place a = l.src ∧ place b = l.dst ∨ place b = l.src ∧ place a = l.dst) := by
  have hlinked := h.linked
  cases hd : G.distance? (place a) (place b) with
  | none =>
    rw [dist_view, hd] at hlinked
    exact absurd rfl hlinked
  | some w =>
    obtain ⟨l, hl, hweight⟩ := Option.bind_eq_some_iff.mp hd
    refine ⟨l, w, hweight, by rw [dist_view, hd]; rfl, ?_⟩
    exact (Link.between?_spec hl).2.imp (fun h => ⟨h.1.symm, h.2.symm⟩)
      fun h => ⟨h.1.symm, h.2.symm⟩

/-- Harmless ties of a graph are harmless among its blocks. -/
theorem TiesHarmless.view (hG : G.edges.Sound) (hanchored : G.Anchored) (hcovers : G.Covers place)
    (ht : Weight.storable t = true) (h : G.TiesHarmless t)
    (hbelow : ∀ a b, (G.view place).Lightest a b → (G.view place).dist a b < rank t) :
    (G.view place).Harmless := by
  intro a b c d hab hcd
  obtain ⟨l, w, hl, hw, hends⟩ := exists_link hab
  obtain ⟨l', w', hl', hw', hends'⟩ := exists_link hcd
  have hstored {l : Link} {w : Binary64} (hl : G.edges.weight? l = some w) : w.Ranked :=
    ranked_of_storable (hG.storable _ _ hl)
  have hlt : Weight.lt w t = true :=
    (lt_iff_rank (hstored hl) (ranked_of_storable ht)).mpr (hw ▸ hbelow a b hab)
  have hleast (r : Link × Binary64) (hr : r ∈ G.edges.weights.toList) : Weight.le w r.2 := by
    have hr := SortedMap.mem_toList.mp hr
    obtain ⟨hsrc, hdst⟩ := hanchored.live _ _ hr
    obtain ⟨e, he⟩ := hcovers _ hsrc
    obtain ⟨f, hf⟩ := hcovers _ hdst
    have hle := hab.least e f
    rw [hw, dist_view, he, hf, hanchored.toCanonical.distance?_ends hr] at hle
    exact (le_iff_rank (hstored hl) (hstored hr)).mpr hle
  have htie : Weight.le w' w :=
    (le_iff_rank (hstored hl') (hstored hl)).mpr (hw ▸ hw' ▸ (hab.dist_eq hcd).ge)
  have hharmless := h (l, w) (SortedMap.mem_toList.mpr hl) (l', w') (SortedMap.mem_toList.mpr hl')
    hlt hleast htie
  have hstorable := hG.storable _ _ hl
  have hw'' := ((G.view place).dist_comm b a).trans hw
  rcases hends with ⟨ha, hb⟩ | ⟨hb, ha⟩ <;> rcases hends' with ⟨hc, hd⟩ | ⟨hd, hc⟩
  · exact hharmless.easy hG hanchored hstorable hw ha hb hc hd
  · exact (hharmless.easy hG hanchored hstorable hw ha hb hd hc).swap'
  · exact (hharmless.easy hG hanchored hstorable hw'' hb ha hc hd).swap
  · exact (hharmless.easy hG hanchored hstorable hw'' hb ha hd hc).swap'.swap

end Graph

end RecordLinkage
