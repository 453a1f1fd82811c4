import RecordLinkage.Proofs.Drain.Anchored
import RecordLinkage.Proofs.Graph.Quotient

namespace RecordLinkage

variable {ω : Type} [Weight ω] [ExactWeight ω]

namespace Ancestry

noncomputable def record (A : Ancestry) : Step ω → Ancestry
  | .merged x => A.join x.a.vertex x.b.vertex x.merged.vertex (ExactWeight.value x.weight)
  | _ => A

noncomputable def after (history : List (Step ω)) : Ancestry := history.foldl record start

end Ancestry

namespace Drain

variable {m m' : Memory ω} {g : GraphId} {t : ω} {s : Step ω} {history : List (Step ω)}
  {G₀ : Graph ω} {A : Ancestry}

theorem Stepped.quotientOf (hs : Stepped m g t s m') (h : (m.store.graph g).QuotientOf G₀ A) :
    (m'.store.graph g).QuotientOf G₀ (A.record s) := by
  obtain ⟨stop, rfl, rfl⟩ | ⟨l, w, x, y, k, hl, -, hsrc, hdst, hfree, -, hbecomes, rfl⟩ :=
    hs.of_anchored h.anchored
  · exact h
  · rw [hbecomes.graph]
    exact h.contract hl hsrc hdst hfree

theorem Steps.quotientOf (hs : Steps g t m history m') (h : (m.store.graph g).QuotientOf G₀ A) :
    (m'.store.graph g).QuotientOf G₀ (history.foldl Ancestry.record A) := by
  induction hs generalizing A with
  | nil => exact h
  | cons first later ih => exact ih (first.quotientOf h)

end Drain

/-- After any number of steps of a drain, the graph is a weighted quotient of the one it started
from: the merges up to then tell the blocks and their costs. -/
theorem drain_computes_quotient {m m' : Memory ω} {g : GraphId} {t : ω} {n : Nat}
    {history : List (Step ω)} (anchored : (m.store.graph g).Anchored)
    (drained : (Drain.steps g t n).run m = (.ok history, m')) :
    (m'.store.graph g).QuotientOf (m.store.graph g) (.after history) :=
  (Drain.run_steps_ok drained).quotientOf anchored.quotientOf

def exactPath : Memory ℚ≥0 :=
  let v (n : BitVec 128) : VertexId := ⟨⟨n⟩⟩
  let e (n : BitVec 128) : EntityKey := ⟨⟨⟨7⟩⟩, ⟨⟨n⟩⟩⟩
  let G : Graph ℚ≥0 := ((Graph.empty.ensure (v 1) (e 1)).ensure (v 2) (e 2)).ensure (v 3) (e 3)
  ⟨(∅ : Store ℚ≥0).setGraph ⟨⟨1⟩⟩
    ((G.putLink ⟨v 1, v 2⟩ (1 / 10)).putLink ⟨v 2, v 3⟩ (3 / 10)), ⟨[], 0⟩⟩

theorem exactPath_anchored : (exactPath.store.graph ⟨⟨1⟩⟩).Anchored := by
  rw [exactPath, Store.graph_setGraph, if_pos rfl]
  apply Graph.Intact.toAnchored
  apply Graph.Intact.putLink
  · apply Graph.Intact.putLink
    · exact ((Graph.Intact.empty.ensure _ _).ensure _ _).ensure _ _
    all_goals decide +kernel
  all_goals decide +kernel

theorem exactPath_quotient : ∃ history m',
    (Drain.steps ⟨⟨1⟩⟩ (1 : ℚ≥0) 2).run exactPath = (.ok history, m') ∧
      history.countP Step.isMerge = 2 ∧
      (m'.store.graph ⟨⟨1⟩⟩).QuotientOf (exactPath.store.graph ⟨⟨1⟩⟩) (.after history) := by
  have hrun : ((Drain.steps ⟨⟨1⟩⟩ (1 : ℚ≥0) 2).run exactPath).1.meets
      (fun history => decide (history.countP Step.isMerge = 2)) = true := by decide +kernel
  rcases hsteps : (Drain.steps ⟨⟨1⟩⟩ (1 : ℚ≥0) 2).run exactPath with ⟨r, m'⟩
  rw [hsteps] at hrun
  obtain ⟨history, rfl, hmerges⟩ := Outcome.meets_iff.mp hrun
  exact ⟨history, m', rfl, of_decide_eq_true hmerges,
    drain_computes_quotient exactPath_anchored hsteps⟩

end RecordLinkage
