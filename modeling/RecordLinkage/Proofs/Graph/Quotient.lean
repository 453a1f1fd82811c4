import RecordLinkage.Proofs.Graph.Anchored
import RecordLinkage.Proofs.Weight.Exact

namespace RecordLinkage

open scoped NNReal
open ExactWeight

/-- Which vertices of an earlier graph a vertex stands for, and what the merges among them have cost
altogether. -/
structure Ancestry where
  block : VertexId → Set VertexId
  spent : VertexId → ℝ≥0

namespace Ancestry

def start : Ancestry := ⟨fun v => {v}, fun _ => 0⟩

noncomputable def join (A : Ancestry) (a b k : VertexId) (cost : ℝ≥0) : Ancestry where
  block := Function.update A.block k (A.block a ∪ A.block b)
  spent := Function.update A.spent k (A.spent a + A.spent b + cost)

variable (A : Ancestry) (a b : VertexId) {k v : VertexId} (cost : ℝ≥0)

@[simp] theorem block_join_self : (A.join a b k cost).block k = A.block a ∪ A.block b :=
  Function.update_self ..

@[simp] theorem spent_join_self : (A.join a b k cost).spent k = A.spent a + A.spent b + cost :=
  Function.update_self ..

theorem block_join_of_ne (hv : v ≠ k) : (A.join a b k cost).block v = A.block v :=
  Function.update_of_ne hv ..

theorem spent_join_of_ne (hv : v ≠ k) : (A.join a b k cost).spent v = A.spent v :=
  Function.update_of_ne hv ..

end Ancestry

variable {ω : Type} [Weight ω] [ExactWeight ω]

namespace Graph

def crossing (G : Graph ω) (P Q : Set VertexId) : Set ℝ≥0 :=
  {d | ∃ u ∈ P, ∃ v ∈ Q, ∃ w, G.distance? u v = some w ∧ value w = d}

variable {G G₀ : Graph ω} {A : Ancestry} {P P' Q : Set VertexId} {u v k X Y : VertexId} {l : Link}
  {w : ω} {x y : Cluster ω}

theorem crossing_comm (G : Graph ω) (P Q : Set VertexId) : G.crossing P Q = G.crossing Q P := by
  ext d
  constructor <;> rintro ⟨u, hu, v, hv, w, hw, hd⟩ <;>
    exact ⟨v, hv, u, hu, w, (distance?_comm ..).trans hw, hd⟩

theorem crossing_union (G : Graph ω) (P P' Q : Set VertexId) :
    G.crossing (P ∪ P') Q = G.crossing P Q ∪ G.crossing P' Q := by
  ext d
  simp only [crossing, Set.mem_union, Set.mem_ofPred_eq, or_and_right, exists_or]

theorem estimates_singletons (G : Graph ω) (u v : VertexId) :
    Estimates (G.crossing {u} {v}) 0 (G.distance? u v) := by
  have hmem (d : ℝ≥0) : d ∈ G.crossing {u} {v} ↔ ∃ w, G.distance? u v = some w ∧ value w = d := by
    simp [crossing]
  constructor
  · simp [Set.Nonempty, hmem, Option.isSome_iff_exists]
  · intro w hw
    refine ⟨value w, ⟨(hmem _).mpr ⟨w, hw, rfl⟩, ?_⟩, le_refl _, le_self_add⟩
    intro d hd
    obtain ⟨w', hw', rfl⟩ := (hmem d).mp hd
    rw [hw, Option.some.injEq] at hw'
    rw [hw']

/-- A graph is a quotient of an earlier one: its vertices stand for blocks that share out the
vertices of the other, and two of them are linked just when their blocks are, at no less than the
least weight between the blocks, and at no more than that and the cost of both blocks. -/
structure QuotientOf (G G₀ : Graph ω) (A : Ancestry) : Prop where
  anchored : G.Anchored
  nonempty : ∀ X, G.live X = true → (A.block X).Nonempty
  within : ∀ X, G.live X = true → ∀ v ∈ A.block X, G₀.live v = true
  covers : ∀ v, G₀.live v = true → ∃ X, G.live X = true ∧ v ∈ A.block X
  apart : ∀ X Y, G.live X = true → G.live Y = true → X ≠ Y → ∀ v ∈ A.block X, v ∉ A.block Y
  estimates : ∀ X Y, G.live X = true → G.live Y = true → X ≠ Y →
    Estimates (G₀.crossing (A.block X) (A.block Y)) (A.spent X + A.spent Y) (G.distance? X Y)

theorem Anchored.quotientOf (h : G.Anchored) : G.QuotientOf G .start where
  anchored := h
  nonempty X _ := Set.singleton_nonempty X
  within X hX v hv := Set.mem_singleton_iff.mp hv ▸ hX
  covers v hv := ⟨v, hv, rfl⟩
  apart X Y _ _ hne v hX hY := hne (hX.symm.trans hY)
  estimates X Y _ _ _ := by
    simpa [Ancestry.start] using G.estimates_singletons X Y

section Contraction

variable (h : G.QuotientOf G₀ A) (hl : G.edges.weight? l = some w)
  (hsrc : G.cluster? l.src = some x) (hdst : G.cluster? l.dst = some y) (hfree : G.taken k = false)
include h hl hsrc hdst hfree

/-- The block of the union is apart from the others, and its links are estimated by those between the
blocks of its parts and the others. -/
theorem QuotientOf.union (hk : Y ≠ k) (hs : Y ≠ l.src) (hd : Y ≠ l.dst) (hY : G.live Y = true) :
    (∀ v ∈ A.block l.src ∪ A.block l.dst, v ∉ A.block Y) ∧
      Estimates (G₀.crossing (A.block l.src ∪ A.block l.dst) (A.block Y))
        (A.spent l.src + A.spent l.dst + value w + A.spent Y)
        ((G.contract l w x y k).distance? k Y) := by
  have hlsrc : G.live l.src = true := live_iff.mpr ⟨x, hsrc⟩
  have hldst : G.live l.dst = true := live_iff.mpr ⟨y, hdst⟩
  have hc := h.anchored.contracts hl hfree
  rw [crossing_union, hc.distance?_union hk.symm hs.symm hd.symm]
  constructor
  · intro v hv
    exact hv.elim (h.apart _ _ hlsrc hY hs.symm v) (h.apart _ _ hldst hY hd.symm v)
  · apply (h.estimates _ _ hlsrc hY hs.symm).linkage (h.estimates _ _ hldst hY hd.symm)
    · calc A.spent l.src + A.spent Y + value w
        _ ≤ A.spent l.src + A.spent Y + value w + A.spent l.dst := le_self_add
        _ = A.spent l.src + A.spent l.dst + value w + A.spent Y := by ring
    · calc A.spent l.dst + A.spent Y + value w
        _ ≤ A.spent l.dst + A.spent Y + value w + A.spent l.src := le_self_add
        _ = A.spent l.src + A.spent l.dst + value w + A.spent Y := by ring

theorem QuotientOf.pair (hX : (G.contract l w x y k).live X = true)
    (hY : (G.contract l w x y k).live Y = true) (hne : X ≠ Y) :
    let B := A.join l.src l.dst k (value w)
    (∀ v ∈ B.block X, v ∉ B.block Y) ∧
      Estimates (G₀.crossing (B.block X) (B.block Y)) (B.spent X + B.spent Y)
        ((G.contract l w x y k).distance? X Y) := by
  intro B
  rw [live_contract_iff hsrc hdst hfree] at hX hY
  rcases hX with rfl | ⟨hXk, hXs, hXd, hX⟩ <;> rcases hY with rfl | ⟨hYk, hYs, hYd, hY⟩
  · exact absurd rfl hne
  · rw [A.block_join_self, A.block_join_of_ne _ _ _ hYk, A.spent_join_self,
      A.spent_join_of_ne _ _ _ hYk]
    exact h.union hl hsrc hdst hfree hYk hYs hYd hY
  · obtain ⟨hapart, hestimates⟩ := h.union hl hsrc hdst hfree hXk hXs hXd hX
    rw [A.block_join_self, A.block_join_of_ne _ _ _ hXk, A.spent_join_self,
      A.spent_join_of_ne _ _ _ hXk, crossing_comm, add_comm, distance?_comm]
    exact ⟨fun v hv hends => hapart v hends hv, hestimates⟩
  · have hother := (h.anchored.contracts hl hfree).distance?_other (x := x) (y := y) (w := w)
      hXk hYk ⟨hXs, hXd⟩ ⟨hYs, hYd⟩
    rw [A.block_join_of_ne _ _ _ hXk, A.block_join_of_ne _ _ _ hYk, A.spent_join_of_ne _ _ _ hXk,
      A.spent_join_of_ne _ _ _ hYk, hother]
    exact ⟨h.apart X Y hX hY hne, h.estimates X Y hX hY hne⟩

theorem QuotientOf.contract :
    (G.contract l w x y k).QuotientOf G₀ (A.join l.src l.dst k (value w)) := by
  have hlsrc : G.live l.src = true := live_iff.mpr ⟨x, hsrc⟩
  have hldst : G.live l.dst = true := live_iff.mpr ⟨y, hdst⟩
  have hlive {u : VertexId} := live_contract_iff (w := w) (u := u) hsrc hdst hfree
  refine ⟨h.anchored.contract hl hsrc hdst hfree, ?_, ?_, ?_, ?_, ?_⟩
  · intro X hX
    rcases hlive.mp hX with rfl | ⟨hk, -, -, hX⟩
    · rw [A.block_join_self]
      exact (h.nonempty _ hlsrc).inl
    · rw [A.block_join_of_ne _ _ _ hk]
      exact h.nonempty X hX
  · intro X hX v hv
    rcases hlive.mp hX with rfl | ⟨hk, -, -, hX⟩
    · rw [A.block_join_self] at hv
      exact hv.elim (h.within _ hlsrc v) (h.within _ hldst v)
    · rw [A.block_join_of_ne _ _ _ hk] at hv
      exact h.within X hX v hv
  · intro v hv
    obtain ⟨X, hX, hmem⟩ := h.covers v hv
    -- Who was in the block of a part is in that of the union.
    by_cases hends : X = l.src ∨ X = l.dst
    · refine ⟨k, hlive.mpr (.inl rfl), ?_⟩
      rw [A.block_join_self]
      rcases hends with rfl | rfl
      · exact .inl hmem
      · exact .inr hmem
    · rw [not_or] at hends
      have hk := (ne_of_not_taken hfree hX).symm
      refine ⟨X, hlive.mpr (.inr ⟨hk, hends.1, hends.2, hX⟩), ?_⟩
      rwa [A.block_join_of_ne _ _ _ hk]
  · exact fun X Y hX hY hne => (h.pair hl hsrc hdst hfree hX hY hne).1
  · exact fun X Y hX hY hne => (h.pair hl hsrc hdst hfree hX hY hne).2

end Contraction

end Graph

end RecordLinkage
