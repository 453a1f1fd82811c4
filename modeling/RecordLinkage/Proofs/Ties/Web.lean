import RecordLinkage.Proofs.Weight.Detour
import Mathlib.Data.Setoid.Basic

namespace RecordLinkage

/-- Blocks of elements, and how far they are from each other. Within a block nothing is linked. -/
@[ext] structure Web (B α : Type) [LinearOrder α] [BoundedOrder α] where
  same : Setoid B
  dist : B → B → α
  dist_comm : ∀ x y, dist x y = dist y x
  dist_congr : ∀ x x' y, same x x' → dist x y = dist x' y
  dist_same : ∀ x y, same x y → dist x y = ⊤

namespace Web

variable {B α : Type} [LinearOrder α] [BoundedOrder α] {S : Web B α} {u v x y a b : B}

theorem dist_congr_right (S : Web B α) (h : S.same y b) : S.dist x y = S.dist x b := by
  rw [S.dist_comm, S.dist_congr y b x h, S.dist_comm]

theorem same_comm (S : Web B α) : S.same x y ↔ S.same y x := ⟨S.same.symm, S.same.symm⟩

structure Part (S : Web B α) where
  mem : B → Prop
  far : B → α
  mem_congr : ∀ x y, S.same x y → (mem x ↔ mem y)
  far_congr : ∀ x y, S.same x y → far x = far y

open Classical in
noncomputable def collapse (S : Web B α) (p : S.Part) : Web B α where
  same :=
    { r := fun x y => S.same x y ∨ p.mem x ∧ p.mem y
      iseqv :=
        { refl := fun x => .inl (S.same.refl x)
          symm := fun h => h.imp S.same.symm And.symm
          trans := by
            rintro x y z (hxy | ⟨hx, hy⟩) (hyz | ⟨hy', hz⟩)
            · exact .inl (S.same.trans hxy hyz)
            · exact .inr ⟨(p.mem_congr x y hxy).mpr hy', hz⟩
            · exact .inr ⟨hx, (p.mem_congr y z hyz).mp hy⟩
            · exact .inr ⟨hx, hz⟩ } }
  dist x y :=
    if p.mem x then (if p.mem y then ⊤ else p.far y)
    else if p.mem y then p.far x else S.dist x y
  dist_comm x y := by
    by_cases hx : p.mem x <;> by_cases hy : p.mem y <;> simp [hx, hy, S.dist_comm x y]
  dist_congr := by
    rintro x x' y (h | ⟨hx, hx'⟩)
    · have hmem := p.mem_congr x x' h
      by_cases hx : p.mem x'
      · rw [if_pos (hmem.mpr hx), if_pos hx]
      · rw [if_neg (mt hmem.mp hx), if_neg hx, p.far_congr x x' h, S.dist_congr x x' y h]
    · rw [if_pos hx, if_pos hx']
  dist_same := by
    rintro x y (h | ⟨hx, hy⟩)
    · have hmem := p.mem_congr x y h
      by_cases hy : p.mem y
      · rw [if_pos (hmem.mpr hy), if_pos hy]
      · rw [if_neg (mt hmem.mp hy), if_neg hy, S.dist_same x y h]
    · rw [if_pos hx, if_pos hy]

section Collapse

variable {p : S.Part}

theorem same_collapse : (S.collapse p).same x y ↔ S.same x y ∨ p.mem x ∧ p.mem y := Iff.rfl

theorem dist_collapse_same (hx : p.mem x) (hy : p.mem y) : (S.collapse p).dist x y = ⊤ :=
  (S.collapse p).dist_same x y (.inr ⟨hx, hy⟩)

theorem dist_collapse_far (hx : p.mem x) (hy : ¬ p.mem y) : (S.collapse p).dist x y = p.far y := by
  simp [collapse, hx, hy]

theorem dist_collapse_far' (hx : ¬ p.mem x) (hy : p.mem y) : (S.collapse p).dist x y = p.far x := by
  rw [dist_comm, dist_collapse_far hy hx]

theorem dist_collapse_other (hx : ¬ p.mem x) (hy : ¬ p.mem y) :
    (S.collapse p).dist x y = S.dist x y := by
  simp [collapse, hx, hy]

theorem collapse_congr {p q : S.Part} (hmem : ∀ x, p.mem x ↔ q.mem x)
    (hfar : ∀ x, ¬ p.mem x → p.far x = q.far x) : S.collapse p = S.collapse q := by
  ext x y
  · simp only [same_collapse, hmem]
  · by_cases hx : p.mem x <;> by_cases hy : p.mem y
    · rw [dist_collapse_same hx hy, dist_collapse_same ((hmem x).mp hx) ((hmem y).mp hy)]
    · rw [dist_collapse_far hx hy, dist_collapse_far ((hmem x).mp hx) (mt (hmem y).mpr hy),
        hfar y hy]
    · rw [dist_collapse_far' hx hy, dist_collapse_far' (mt (hmem x).mpr hx) ((hmem y).mp hy),
        hfar x hx]
    · rw [dist_collapse_other hx hy, dist_collapse_other (mt (hmem x).mpr hx) (mt (hmem y).mpr hy)]

def flatten {p : S.Part} (q : (S.collapse p).Part) : S.Part where
  mem := q.mem
  far := q.far
  mem_congr x y h := q.mem_congr x y (.inl h)
  far_congr x y h := q.far_congr x y (.inl h)

theorem collapse_flatten {p : S.Part} (q : (S.collapse p).Part) (hsub : ∀ x, p.mem x → q.mem x) :
    (S.collapse p).collapse q = S.collapse (flatten q) := by
  have hout (x : B) (hx : ¬ q.mem x) : ¬ p.mem x := mt (hsub x) hx
  ext x y
  · show (S.same x y ∨ p.mem x ∧ p.mem y) ∨ q.mem x ∧ q.mem y ↔ S.same x y ∨ q.mem x ∧ q.mem y
    rw [or_assoc, or_iff_right_of_imp (And.imp (hsub x) (hsub y))]
  · by_cases hx : q.mem x <;> by_cases hy : q.mem y
    · rw [dist_collapse_same hx hy, dist_collapse_same (p := flatten q) hx hy]
    · rw [dist_collapse_far hx hy, dist_collapse_far (p := flatten q) hx hy]
      rfl
    · rw [dist_collapse_far' hx hy, dist_collapse_far' (p := flatten q) hx hy]
      rfl
    · rw [dist_collapse_other hx hy, dist_collapse_other (p := flatten q) hx hy,
        dist_collapse_other (hout x hx) (hout y hy)]

/-- Two unions with nothing in common are made in either order. -/
theorem collapse_collapse_comm {p q : S.Part} {q' : (S.collapse p).Part}
    {p' : (S.collapse q).Part} (hp : ∀ x, p'.mem x ↔ p.mem x) (hq : ∀ x, q'.mem x ↔ q.mem x)
    (hapart : ∀ x, p.mem x → ¬ q.mem x)
    (hpfar : ∀ x, ¬ p.mem x → ¬ q.mem x → p'.far x = p.far x)
    (hqfar : ∀ x, ¬ p.mem x → ¬ q.mem x → q'.far x = q.far x)
    (hacross : ∀ x y, p.mem x → q.mem y → q'.far x = p'.far y) :
    (S.collapse p).collapse q' = (S.collapse q).collapse p' := by
  have hplace (x : B) : p.mem x ∧ ¬ q.mem x ∨ ¬ p.mem x ∧ q.mem x ∨ ¬ p.mem x ∧ ¬ q.mem x := by
    have hx := hapart x
    tauto
  ext x y
  · show (S.same x y ∨ _) ∨ _ ↔ (S.same x y ∨ _) ∨ _
    rw [hp, hp, hq, hq, or_right_comm]
  · rcases hplace x with ⟨hpx, hqx⟩ | ⟨hpx, hqx⟩ | ⟨hpx, hqx⟩ <;>
      rcases hplace y with ⟨hpy, hqy⟩ | ⟨hpy, hqy⟩ | ⟨hpy, hqy⟩ <;>
      simp only [collapse, hp, hq, hpx, hqx, hpy, hqy, if_true, if_false]
    · exact hacross x y hpx hqy
    · exact (hpfar y hpy hqy).symm
    · exact hacross y x hpy hqx
    · exact hqfar y hpy hqy
    · exact (hpfar x hpx hqx).symm
    · exact hqfar x hpx hqx

end Collapse

open Detour

variable [Detour α]

def pair (S : Web B α) (u v : B) : S.Part where
  mem x := S.same x u ∨ S.same x v
  far x := joined (S.dist u x) (S.dist v x) (S.dist u v)
  mem_congr x y h :=
    have hswap (z : B) : S.same x z ↔ S.same y z :=
      ⟨S.same.trans (S.same.symm h), S.same.trans h⟩
    or_congr (hswap u) (hswap v)
  far_congr x y h := by rw [S.dist_congr_right h, S.dist_congr_right h]

noncomputable def merge (S : Web B α) (u v : B) : Web B α := S.collapse (S.pair u v)

theorem mem_pair : (S.pair u v).mem x ↔ S.same x u ∨ S.same x v := Iff.rfl

theorem far_pair : (S.pair u v).far x = joined (S.dist u x) (S.dist v x) (S.dist u v) := rfl

theorem mem_pair_left (S : Web B α) (u v : B) : (S.pair u v).mem u := .inl (S.same.refl u)

theorem mem_pair_right (S : Web B α) (u v : B) : (S.pair u v).mem v := .inr (S.same.refl v)

theorem same_merge : (S.merge u v).same x y ↔
    S.same x y ∨ (S.pair u v).mem x ∧ (S.pair u v).mem y := Iff.rfl

theorem merge_comm (S : Web B α) (u v : B) : S.merge u v = S.merge v u := by
  refine collapse_congr (fun x => or_comm) fun x _ => ?_
  rw [far_pair, far_pair, joined_comm, S.dist_comm u v]

/-- It is the blocks that count, not their elements. -/
theorem merge_congr (hu : S.same u a) (hv : S.same v b) : S.merge u v = S.merge a b := by
  have hswap {c d : B} (h : S.same c d) (x : B) : S.same x c ↔ S.same x d :=
    ⟨fun hx => S.same.trans hx h, fun hx => S.same.trans hx (S.same.symm h)⟩
  refine collapse_congr (fun x => or_congr (hswap hu x) (hswap hv x)) fun x _ => ?_
  rw [far_pair, far_pair, S.dist_congr u a x hu, S.dist_congr v b x hv, S.dist_congr u a v hu,
    S.dist_congr_right hv]

theorem mem_pair_merge (hx : ¬ (S.pair u v).mem x) (hy : ¬ (S.pair u v).mem y) :
    ((S.merge u v).pair x y).mem a ↔ (S.pair x y).mem a := by
  simp only [mem_pair, same_merge] at hx hy ⊢
  tauto

theorem dist_merge_other (hx : ¬ (S.pair u v).mem x) (hy : ¬ (S.pair u v).mem y) :
    (S.merge u v).dist x y = S.dist x y := dist_collapse_other hx hy

theorem dist_merge_far (hx : (S.pair u v).mem x) (hy : ¬ (S.pair u v).mem y) :
    (S.merge u v).dist x y = joined (S.dist u y) (S.dist v y) (S.dist u v) :=
  dist_collapse_far hx hy

/-- Two pairs of blocks with nothing in common. -/
theorem not_mem_pair_symm (hx : ¬ (S.pair u v).mem x) (hy : ¬ (S.pair u v).mem y) :
    ¬ (S.pair x y).mem u ∧ ¬ (S.pair x y).mem v := by
  simp only [mem_pair, S.same_comm (x := u), S.same_comm (x := v)] at hx hy ⊢
  tauto

/-- Two pairs of blocks with nothing in common may be joined in either order, where their distances
across allow it. -/
theorem merge_merge_of_apart (hx : ¬ (S.pair u v).mem x) (hy : ¬ (S.pair u v).mem y)
    (hw : S.dist u v = S.dist x y)
    (hacross : Interchange (S.dist u x) (S.dist v x) (S.dist u y) (S.dist v y) (S.dist u v)) :
    (S.merge u v).merge x y = (S.merge x y).merge u v := by
  obtain ⟨hu, hv⟩ := not_mem_pair_symm hx hy
  refine collapse_collapse_comm (fun a => mem_pair_merge hu hv) (fun a => mem_pair_merge hx hy)
    ?_ ?_ ?_ ?_
  · intro a ha ha'
    simp only [mem_pair] at hx hy ha ha'
    rcases ha' with h | h
    · exact hx (ha.imp (S.same.trans (S.same.symm h)) (S.same.trans (S.same.symm h)))
    · exact hy (ha.imp (S.same.trans (S.same.symm h)) (S.same.trans (S.same.symm h)))
  · intro a _ ha
    show joined ((S.merge x y).dist u a) ((S.merge x y).dist v a) ((S.merge x y).dist u v) = _
    rw [dist_merge_other hu ha, dist_merge_other hv ha, dist_merge_other hu hv]
    rfl
  · intro a ha _
    -- Between the two unions all four distances across matter.
    show joined ((S.merge u v).dist x a) ((S.merge u v).dist y a) ((S.merge u v).dist x y) = _
    rw [dist_merge_other hx ha, dist_merge_other hy ha, dist_merge_other hx hy]
    rfl
  · intro a b ha hb
    show joined ((S.merge u v).dist x a) ((S.merge u v).dist y a) ((S.merge u v).dist x y) =
      joined ((S.merge x y).dist u b) ((S.merge x y).dist v b) ((S.merge x y).dist u v)
    rw [(S.merge u v).dist_comm x a, (S.merge u v).dist_comm y a, (S.merge x y).dist_comm u b,
      (S.merge x y).dist_comm v b, dist_merge_far ha hx, dist_merge_far ha hy, dist_merge_far hb hu,
      dist_merge_far hb hv, dist_merge_other hx hy, dist_merge_other hu hv, ← hw, S.dist_comm x u,
      S.dist_comm x v, S.dist_comm y u, S.dist_comm y v]
    exact hacross

/-- Two pairs with a block in common may be joined in either order, where the distances to all else
allow it. -/
theorem merge_merge_of_shared (hu : ¬ (S.pair v y).mem u) (hy : ¬ (S.pair u v).mem y)
    (hfar : ∀ x, ¬ (S.pair u v).mem x → ¬ (S.pair v y).mem x →
      joined (joined (S.dist u x) (S.dist v x) (S.dist u v)) (S.dist y x)
          ((S.merge u v).dist v y) =
        joined (S.dist u x) (joined (S.dist v x) (S.dist y x) (S.dist v y))
          ((S.merge v y).dist u v)) :
    (S.merge u v).merge v y = (S.merge v y).merge u v := by
  have hthree (x : B) : ((S.merge u v).pair v y).mem x ↔ S.same x u ∨ S.same x v ∨ S.same x y := by
    simp only [mem_pair, same_merge] at hu hy ⊢
    have hvv := S.same.refl v
    tauto
  have hthree' (x : B) : ((S.merge v y).pair u v).mem x ↔ S.same x u ∨ S.same x v ∨ S.same x y := by
    simp only [mem_pair, same_merge] at hu hy ⊢
    have hvv := S.same.refl v
    tauto
  -- Either way the result is one union of all three blocks.
  rw [merge, merge, collapse_flatten, merge, merge, collapse_flatten]
  · refine collapse_congr (fun x => (hthree x).trans (hthree' x).symm) fun x hx => ?_
    have hout : ¬ (S.pair u v).mem x ∧ ¬ (S.pair v y).mem x := by
      have hx := mt (hthree x).mpr hx
      simp only [mem_pair]
      tauto
    show joined ((S.merge u v).dist v x) ((S.merge u v).dist y x) ((S.merge u v).dist v y) =
      joined ((S.merge v y).dist u x) ((S.merge v y).dist v x) ((S.merge v y).dist u v)
    rw [dist_merge_far (mem_pair_right S u v) hout.1, dist_merge_other hy hout.1,
      dist_merge_other hu hout.2, dist_merge_far (mem_pair_left S v y) hout.2]
    exact hfar x hout.1 hout.2
  · intro x hx
    exact (hthree' x).mpr (.inr hx)
  · intro x hx
    exact (hthree x).mpr (hx.imp_right .inl)

def Alike (S : Web B α) (u v : B) : Prop := ∀ x, ¬ (S.pair u v).mem x → S.dist u x = S.dist v x

theorem Alike.symm (h : S.Alike u v) : S.Alike v u := fun x hx => (h x (mt Or.symm hx)).symm

/-- Joining blocks that are alike changes no distance between blocks. -/
theorem Alike.dist_merge (h : S.Alike u v) (hxy : ¬ (S.merge u v).same x y) :
    (S.merge u v).dist x y = S.dist x y := by
  have hunion (a b : B) (ha : (S.pair u v).mem a) (hb : ¬ (S.pair u v).mem b) :
      (S.merge u v).dist a b = S.dist a b := by
    rw [dist_merge_far ha hb, ← h b hb, joined_self]
    rcases ha with ha | ha
    · exact (S.dist_congr a u b ha).symm
    · exact (h b hb).trans (S.dist_congr a v b ha).symm
  by_cases hx : (S.pair u v).mem x <;> by_cases hy : (S.pair u v).mem y
  · exact absurd (.inr ⟨hx, hy⟩) hxy
  · exact hunion x y hx hy
  · rw [dist_comm, hunion y x hy hx, S.dist_comm]
  · exact dist_merge_other hx hy

end Web

end RecordLinkage
