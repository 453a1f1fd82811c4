import RecordLinkage.Proofs.Ties.Web
import Mathlib.Logic.Relation

namespace RecordLinkage.Web

open Detour Relation

variable {B α : Type} [LinearOrder α] [BoundedOrder α] {S T : Web B α} {u v x y a b : B} {t : α}

structure Lightest (S : Web B α) (u v : B) : Prop where
  linked : S.dist u v ≠ ⊤
  least : ∀ x y, S.dist u v ≤ S.dist x y

theorem Lightest.dist_eq (h : S.Lightest u v) (h' : S.Lightest x y) : S.dist u v = S.dist x y :=
  le_antisymm (h.least x y) (h'.least u v)

theorem Lightest.of_dist_eq (h : S.Lightest u v) (hxy : S.dist x y = S.dist u v) :
    S.Lightest x y := ⟨hxy ▸ h.linked, hxy ▸ h.least⟩

theorem Lightest.symm (h : S.Lightest u v) : S.Lightest v u := h.of_dist_eq (S.dist_comm v u)

theorem Lightest.not_same (h : S.Lightest u v) : ¬ S.same u v :=
  fun huv => h.linked (S.dist_same u v huv)

theorem Lightest.congr (h : S.Lightest u v) (hu : S.same u a) (hv : S.same v b) : S.Lightest a b :=
  h.of_dist_eq (by rw [S.dist_congr u a v hu, S.dist_congr_right hv])

variable [Detour α]

/-- Two of the lightest links do not get in each other's way. -/
inductive Easy (S : Web B α) (u v x y : B) : Prop where
  | free (zero : S.dist u v = ⊥)
  | same (left : S.same u x) (right : S.same v y)
  | crossed (left : S.same u y) (right : S.same v x)
  | alike (first : S.Alike u v) (second : S.Alike x y)
  | apart (left : ¬ (S.pair u v).mem x) (right : ¬ (S.pair u v).mem y)
      (across : Interchange (S.dist u x) (S.dist v x) (S.dist u y) (S.dist v y) (S.dist u v))

theorem Easy.swap (h : S.Easy u v x y) : S.Easy v u x y := by
  cases h with
  | free zero => exact .free ((S.dist_comm v u).trans zero)
  | same left right => exact .crossed right left
  | crossed left right => exact .same right left
  | alike first second => exact .alike first.symm second
  | apart left right across =>
    refine .apart (mt Or.symm left) (mt Or.symm right) ?_
    rw [S.dist_comm v u]
    exact across.swap

theorem Easy.swap' (h : S.Easy u v x y) : S.Easy u v y x := by
  cases h with
  | free zero => exact .free zero
  | same left right => exact .crossed left right
  | crossed left right => exact .same left right
  | alike first second => exact .alike first second.symm
  | apart left right across => exact .apart right left across.symm.swap.symm

def Harmless (S : Web B α) : Prop :=
  ∀ u v x y, S.Lightest u v → S.Lightest x y → S.Easy u v x y

/-- Joining two blocks at the least distance brings nothing nearer. -/
theorem Lightest.le_dist_merge (h : S.Lightest u v) (x y : B) :
    S.dist u v ≤ (S.merge u v).dist x y := by
  by_cases hx : (S.pair u v).mem x <;> by_cases hy : (S.pair u v).mem y
  · rw [merge, dist_collapse_same hx hy]
    exact le_top
  · rw [dist_merge_far hx hy]
    exact le_joined (h.least u y) (h.least v y)
  · rw [(S.merge u v).dist_comm, dist_merge_far hy hx]
    exact le_joined (h.least u x) (h.least v x)
  · rw [dist_merge_other hx hy]
    exact h.least x y

theorem Lightest.merge (h : S.Lightest u v) (hxy : (S.merge u v).dist x y = S.dist u v) :
    (S.merge u v).Lightest x y := by
  refine ⟨?_, fun a b => ?_⟩
  · rw [hxy]
    exact h.linked
  · rw [hxy]
    exact h.le_dist_merge a b

structure Square (S : Web B α) (u v x y : B) : Prop where
  corner : (S.merge u v).merge x y = (S.merge x y).merge u v
  second : (S.merge u v).dist x y = S.dist u v
  second' : (S.merge x y).dist u v = S.dist u v

theorem Square.swap (h : S.Square u v x y) : S.Square v u x y := by
  refine ⟨?_, ?_, ?_⟩
  · rw [S.merge_comm v u, (S.merge x y).merge_comm v u]
    exact h.corner
  · rw [S.merge_comm v u, S.dist_comm v u]
    exact h.second
  · rw [dist_comm, S.dist_comm v u]
    exact h.second'

theorem Square.swap' (h : S.Square u v x y) : S.Square u v y x := by
  refine ⟨?_, ?_, ?_⟩
  · rw [S.merge_comm y x, (S.merge u v).merge_comm y x]
    exact h.corner
  · rw [dist_comm]
    exact h.second
  · rw [S.merge_comm y x]
    exact h.second'

theorem square_of_apart (h : S.Lightest u v) (h' : S.Lightest x y) (hx : ¬ (S.pair u v).mem x)
    (hy : ¬ (S.pair u v).mem y)
    (hacross : Interchange (S.dist u x) (S.dist v x) (S.dist u y) (S.dist v y) (S.dist u v)) :
    S.Square u v x y := by
  obtain ⟨hu, hv⟩ := not_mem_pair_symm hx hy
  have hw := h.dist_eq h'
  exact ⟨merge_merge_of_apart hx hy hw hacross, (dist_merge_other hx hy).trans hw.symm,
    dist_merge_other hu hv⟩

/-- Two links with a block in common that cost nothing or join blocks that are alike. -/
theorem square_of_shared (h : S.Lightest u v) (h' : S.Lightest x y) (hvx : S.same v x)
    (huy : ¬ S.same u y) (heasy : S.dist u v = ⊥ ∨ S.Alike u v ∧ S.Alike x y) :
    S.Square u v x y := by
  have hsame : S.merge x y = S.merge v y := merge_congr (S.same.symm hvx) (S.same.refl y)
  have hsame' : (S.merge u v).merge x y = (S.merge u v).merge v y :=
    merge_congr (.inl (S.same.symm hvx)) (.inl (S.same.refl y))
  have hvy := h'.congr (S.same.symm hvx) (S.same.refl y)
  have hw := h.dist_eq hvy
  have hy : ¬ (S.pair u v).mem y :=
    not_or.mpr ⟨mt S.same.symm huy, mt S.same.symm hvy.not_same⟩
  have hu : ¬ (S.pair v y).mem u := not_or.mpr ⟨h.not_same, huy⟩
  -- After the first union the third block is as far away as the linkage says.
  have hfirst := dist_merge_far (mem_pair_right S u v) hy
  have hthen := dist_merge_far (mem_pair_left S v y) hu
  rw [(S.merge v y).dist_comm, S.dist_comm v u, S.dist_comm y u] at hthen
  suffices hsquare : (S.merge u v).merge v y = (S.merge v y).merge u v ∧
      (S.merge u v).dist v y = S.dist u v ∧ (S.merge v y).dist u v = S.dist u v by
    refine ⟨?_, ?_, ?_⟩
    · rw [hsame, hsame']
      exact hsquare.1
    · rw [← hsquare.2.1]
      exact (S.merge u v).dist_congr x v y (.inl (S.same.symm hvx))
    · rw [hsame]
      exact hsquare.2.2
  rcases heasy with hbot | ⟨huv, hxy⟩
  · rw [hbot, joined_bot, ← hw, hbot, min_eq_right bot_le] at hfirst
    rw [← hw, hbot, joined_bot, min_eq_left bot_le] at hthen
    refine ⟨merge_merge_of_shared hu hy fun x _ _ => ?_, hfirst.trans hbot.symm,
      hthen.trans hbot.symm⟩
    simp only [hfirst, hthen, ← hw, hbot, joined_bot, min_assoc]
  · have hvy' : S.Alike v y := by
      intro z hz
      have hz' : ¬ (S.pair x y).mem z :=
        mt (Or.imp_left fun hzx => S.same.trans hzx (S.same.symm hvx)) hz
      rw [S.dist_congr v x z hvx]
      exact hxy z hz'
    rw [huv y hy, joined_self, ← hw] at hfirst
    have huy' : S.dist u y = S.dist u v := by rw [huv y hy, ← hw]
    rw [huy', joined_self] at hthen
    refine ⟨merge_merge_of_shared hu hy fun z hz hz' => ?_, hfirst, hthen⟩
    rw [huv z hz, hvy' z hz']
    simp only [joined_self]

/-- Two lightest links that do not get in each other's way are the same, or they make a square. -/
theorem Easy.square (h : S.Lightest u v) (h' : S.Lightest x y) (heasy : S.Easy u v x y) :
    S.merge u v = S.merge x y ∨ S.Square u v x y := by
  by_cases hsame : S.same u x ∧ S.same v y ∨ S.same u y ∧ S.same v x
  · rcases hsame with ⟨hu, hv⟩ | ⟨hu, hv⟩
    · exact .inl (merge_congr hu hv)
    · exact .inl ((merge_congr hu hv).trans (S.merge_comm y x))
  · rw [not_or, not_and, not_and] at hsame
    right
    -- Free links and alike blocks may meet in any of their ends.
    have hany (heasy : S.dist u v = ⊥ ∨ S.Alike u v ∧ S.Alike x y) : S.Square u v x y := by
      have hswap : S.dist v u = ⊥ ∨ S.Alike v u ∧ S.Alike x y :=
        heasy.imp (S.dist_comm v u).trans (And.imp_left Alike.symm)
      have hback {a b : B} (h : S.dist a b = ⊥ ∨ S.Alike a b ∧ S.Alike x y) :
          S.dist a b = ⊥ ∨ S.Alike a b ∧ S.Alike y x := h.imp_right (And.imp_right Alike.symm)
      by_cases hvx : S.same v x
      · exact square_of_shared h h' hvx (fun huy => hsame.2 huy hvx) heasy
      by_cases hvy : S.same v y
      · exact (square_of_shared h h'.symm hvy (fun hux => hsame.1 hux hvy) (hback heasy)).swap'
      by_cases hux : S.same u x
      · exact (square_of_shared h.symm h' hux hvy hswap).swap
      by_cases huy : S.same u y
      · exact (square_of_shared h.symm h'.symm huy hvx (hback hswap)).swap'.swap
      have hx : ¬ (S.pair u v).mem x := not_or.mpr ⟨mt S.same.symm hux, mt S.same.symm hvx⟩
      have hy : ¬ (S.pair u v).mem y := not_or.mpr ⟨mt S.same.symm huy, mt S.same.symm hvy⟩
      refine square_of_apart h h' hx hy ?_
      rcases heasy with hbot | ⟨huv, hxy⟩
      · rw [hbot]
        exact interchange_bot _ _ _ _
      · have hu : ¬ (S.pair x y).mem u := (not_mem_pair_symm hx hy).1
        rw [huv x hx, huv y hy, S.dist_comm v, S.dist_comm v, ← hxy v (not_mem_pair_symm hx hy).2]
        exact interchange_self _ _
    cases heasy with
    | free zero => exact hany (.inl zero)
    | same left right => exact absurd right (hsame.1 left)
    | crossed left right => exact absurd right (hsame.2 left)
    | alike first second => exact hany (.inr ⟨first, second⟩)
    | apart left right across => exact square_of_apart h h' left right across

section Merge

variable (hS : S.Harmless) (h : S.Lightest u v) (hbot : S.dist u v ≠ ⊥)

include h

/-- A link as light as the one that was made does not run inside its union. -/
theorem Lightest.not_both (hab : (S.merge u v).dist a b = S.dist u v) :
    ¬ ((S.pair u v).mem a ∧ (S.pair u v).mem b) := by
  rintro ⟨ha, hb⟩
  exact h.linked (hab.symm.trans (dist_collapse_same ha hb))

include hS hbot

/-- A link as light as the one that was made was there before, and where it ends in the union, the
joined blocks were alike, and so were those at its ends. -/
theorem Harmless.old_link (hab : (S.merge u v).dist a b = S.dist u v) :
    S.dist a b = S.dist u v ∧
      ((S.pair u v).mem a ∨ (S.pair u v).mem b → S.Alike u v ∧ S.Alike a b) := by
  have hunion {a b : B} (ha : (S.pair u v).mem a) (hb : ¬ (S.pair u v).mem b)
      (hab : (S.merge u v).dist a b = S.dist u v) :
      S.dist a b = S.dist u v ∧ S.Alike u v ∧ S.Alike a b := by
    rw [dist_merge_far ha hb] at hab
    obtain ⟨hub, hvb⟩ := eq_of_joined_eq hbot h.linked (h.least u b) (h.least v b) hab
    have hold : S.dist a b = S.dist u v := by
      rcases ha with ha | ha
      · exact (S.dist_congr a u b ha).trans hub
      · exact (S.dist_congr a v b ha).trans hvb
    refine ⟨hold, ?_⟩
    cases hS u v a b h (h.of_dist_eq hold) with
    | free zero => exact absurd zero hbot
    | same left right => exact absurd (.inr (S.same.symm right)) hb
    | crossed left right => exact absurd (.inl (S.same.symm left)) hb
    | alike first second => exact ⟨first, second⟩
    | apart left => exact absurd ha left
  by_cases ha : (S.pair u v).mem a <;> by_cases hb : (S.pair u v).mem b
  · exact absurd ⟨ha, hb⟩ (h.not_both hab)
  · exact (hunion ha hb hab).imp_right fun hboth _ => hboth
  · obtain ⟨hold, huv, hba⟩ := hunion hb ha (((S.merge u v).dist_comm b a).trans hab)
    exact ⟨(S.dist_comm a b).trans hold, fun _ => ⟨huv, hba.symm⟩⟩
  · exact ⟨(dist_merge_other ha hb).symm.trans hab, fun hend => absurd hend (not_or.mpr ⟨ha, hb⟩)⟩

theorem Harmless.alike_merge (hab : (S.merge u v).dist a b = S.dist u v) (halike : S.Alike a b) :
    (S.merge u v).Alike a b := by
  intro z hz
  have hz' : ¬ (S.pair a b).mem z := mt (Or.imp .inl .inl) hz
  by_cases hend : (S.pair u v).mem a ∨ (S.pair u v).mem b
  · have huv := ((hS.old_link h hbot hab).2 hend).1
    obtain ⟨hza, hzb⟩ := not_or.mp hz
    rw [huv.dist_merge (mt (S.merge u v).same.symm hza),
      huv.dist_merge (mt (S.merge u v).same.symm hzb)]
    exact halike z hz'
  · obtain ⟨ha, hb⟩ := not_or.mp hend
    by_cases hzin : (S.pair u v).mem z
    · obtain ⟨hu, hv⟩ := not_mem_pair_symm ha hb
      rw [(S.merge u v).dist_comm, dist_merge_far hzin ha, (S.merge u v).dist_comm,
        dist_merge_far hzin hb, S.dist_comm u, S.dist_comm v, halike u hu, halike v hv,
        S.dist_comm b, S.dist_comm b]
    · rw [dist_merge_other ha hzin, dist_merge_other hb hzin]
      exact halike z hz'

end Merge

theorem Harmless.merge (hS : S.Harmless) (h : S.Lightest u v)
    (hxy : (S.merge u v).dist x y = S.dist u v) : (S.merge u v).Harmless := by
  intro a b c d hab hcd
  have hab := (hab.dist_eq (h.merge hxy)).trans hxy
  have hcd := (hcd.dist_eq (h.merge hxy)).trans hxy
  -- Links that cost nothing never get in each other's way.
  by_cases hbot : S.dist u v = ⊥
  · exact .free (hab.trans hbot)
  obtain ⟨hold, hend⟩ := hS.old_link h hbot hab
  obtain ⟨hold', hend'⟩ := hS.old_link h hbot hcd
  cases hS a b c d (h.of_dist_eq hold) (h.of_dist_eq hold') with
  | free zero => exact absurd (hold.symm.trans zero) hbot
  | same left right => exact .same (.inl left) (.inl right)
  | crossed left right => exact .crossed (.inl left) (.inl right)
  | alike first second =>
    exact .alike (hS.alike_merge h hbot hab first) (hS.alike_merge h hbot hcd second)
  | apart left right across =>
    by_cases hmeet : ((S.merge u v).pair a b).mem c ∨ ((S.merge u v).pair a b).mem d
    · -- Links that were apart meet in the union only.
      have hends : ((S.pair u v).mem a ∨ (S.pair u v).mem b) ∧
          ((S.pair u v).mem c ∨ (S.pair u v).mem d) := by
        rcases hmeet with ((h | ⟨hc, ha⟩) | h | ⟨hc, hb⟩) | (h | ⟨hd, ha⟩) | h | ⟨hd, hb⟩
        · exact absurd (.inl h) left
        · exact ⟨.inl ha, .inl hc⟩
        · exact absurd (.inr h) left
        · exact ⟨.inr hb, .inl hc⟩
        · exact absurd (.inl h) right
        · exact ⟨.inl ha, .inr hd⟩
        · exact absurd (.inr h) right
        · exact ⟨.inr hb, .inr hd⟩
      exact .alike (hS.alike_merge h hbot hab (hend hends.1).2)
        (hS.alike_merge h hbot hcd (hend' hends.2).2)
    -- Links that stay apart have the distances across that they had before.
    · obtain ⟨hc, hd⟩ := not_or.mp hmeet
      have hkept {p q : B} (hp : p = a ∨ p = b) (hq : q = c ∨ q = d) :
          (S.merge u v).dist p q = S.dist p q := by
        by_cases huv : S.Alike u v
        · refine huv.dist_merge fun hpq => hmeet ?_
          rcases hp with rfl | rfl <;> rcases hq with rfl | rfl <;>
            simp only [mem_pair, (S.merge _ _).same.symm hpq, true_or, or_true]
        · obtain ⟨ha, hb⟩ := not_or.mp fun hin => huv (hend hin).1
          obtain ⟨hc, hd⟩ := not_or.mp fun hin => huv (hend' hin).1
          refine dist_merge_other ?_ ?_
          · rcases hp with rfl | rfl <;> assumption
          · rcases hq with rfl | rfl <;> assumption
      refine .apart hc hd ?_
      rw [hkept (.inl rfl) (.inl rfl), hkept (.inr rfl) (.inl rfl), hkept (.inl rfl) (.inr rfl),
        hkept (.inr rfl) (.inr rfl), hab, ← hold]
      exact across

def Step (t : α) (S T : Web B α) : Prop :=
  ∃ u v, S.Lightest u v ∧ S.dist u v < t ∧ T = S.merge u v

def Drained (t : α) (S : Web B α) : Prop := ∀ x y, t ≤ S.dist x y

theorem Drained.not_step (h : S.Drained t) : ¬ Step t S T := by
  rintro ⟨u, v, -, hlt, -⟩
  exact (h u v).not_gt hlt

theorem Drained.eq_of_steps (h : S.Drained t) (hrun : ReflTransGen (Step t) S T) : S = T := by
  rcases hrun.cases_head with heq | ⟨_, hstep, -⟩
  · exact heq
  · exact absurd hstep h.not_step

/-- Some way to drain a web meets harmless ties only. -/
inductive Calm (t : α) : Web B α → Prop where
  | drained {S : Web B α} (h : S.Drained t) : Calm t S
  | step {S T : Web B α} (harmless : S.Harmless) (first : Step t S T) (later : Calm t T) : Calm t S

/-- From a web whose ties are harmless, two steps come together again. -/
theorem Harmless.diamond {T' : Web B α} (hS : S.Harmless) (h : Step t S T) (h' : Step t S T') :
    T = T' ∨ ∃ C, Step t T C ∧ Step t T' C ∧ T'.Harmless := by
  obtain ⟨u, v, huv, hlt, rfl⟩ := h
  obtain ⟨x, y, hxy, hlt', rfl⟩ := h'
  rcases (hS u v x y huv hxy).square huv hxy with hsame | hsquare
  · exact .inl hsame
  · have hback : (S.merge x y).dist u v = S.dist x y := hsquare.second'.trans (huv.dist_eq hxy)
    refine .inr ⟨(S.merge u v).merge x y, ⟨x, y, huv.merge hsquare.second, ?_, rfl⟩,
      ⟨u, v, hxy.merge hback, ?_, hsquare.corner⟩, hS.merge hxy hback⟩
    · rw [hsquare.second]
      exact hlt
    · rw [hsquare.second']
      exact hlt

theorem Calm.of_step (h : Calm t S) (hT : Step t S T) : Calm t T := by
  induction h generalizing T with
  | drained h => exact absurd hT h.not_step
  | step harmless first later ih =>
    rcases harmless.diamond first hT with rfl | ⟨C, hfirst, hT', hharmless⟩
    · exact later
    · exact .step hharmless hT' (ih hfirst)

theorem Calm.harmless (h : Calm t S) (hT : Step t S T) : S.Harmless := by
  cases h with
  | drained h => exact absurd hT h.not_step
  | step harmless => exact harmless

/-- All ways to drain a web end alike, if one of them meets harmless ties only. -/
theorem Calm.unique {T' : Web B α} (h : Calm t S) (hrun : ReflTransGen (Step t) S T)
    (hdrained : T.Drained t) (hrun' : ReflTransGen (Step t) S T') (hdrained' : T'.Drained t) :
    T = T' := by
  have hcalm {T : Web B α} (hrun : ReflTransGen (Step t) S T) :
      ReflTransGen (fun S T => Calm t S ∧ Step t S T) S T ∧ Calm t T := by
    induction hrun with
    | refl => exact ⟨.refl, h⟩
    | tail _ hstep ih => exact ⟨ih.1.tail ⟨ih.2, hstep⟩, ih.2.of_step hstep⟩
  have hjoin : Join (ReflTransGen fun S T => Calm t S ∧ Step t S T) T T' := by
    refine church_rosser ?_ (hcalm hrun).1 (hcalm hrun').1
    rintro S T T' ⟨hS, hT⟩ ⟨-, hT'⟩
    rcases (hS.harmless hT).diamond hT hT' with rfl | ⟨C, hC, hC', -⟩
    · exact ⟨T, .refl, .refl⟩
    · exact ⟨C, .single ⟨hS.of_step hT, hC⟩, .single ⟨hS.of_step hT', hC'⟩⟩
  obtain ⟨C, hC, hC'⟩ := hjoin
  have hend := hdrained.eq_of_steps (hC.lift id fun _ _ hstep => hstep.2)
  have hend' := hdrained'.eq_of_steps (hC'.lift id fun _ _ hstep => hstep.2)
  exact hend.trans hend'.symm

end RecordLinkage.Web
