import RecordLinkage.Proofs.Program.Rules

namespace RecordLinkage

abbrev Exchange (ω : Type) := (c : Call ω) × c.Reply

namespace Program

variable {ω α β : Type}

/-- Rules that keep an account of all exchanges, of which there may be so many. -/
def atMost (ω : Type) (n : Nat) : Rules ω (List (Exchange ω)) where
  allows log _ := log.length < n
  next log c r := log ++ [⟨c, r⟩]

/-- As long as every reply is as expected, a procedure makes certain calls in turn and ends in a
certain way. -/
def Follows (expected : (c : Call ω) → c.Reply → Prop) (outcome : Outcome (Error ω) α) :
    Program ω α → List (Call ω) → Prop
  | .done r, calls => calls = [] ∧ r = outcome
  | .ask c next, calls =>
    ∃ rest, calls = c :: rest ∧ ∀ r, expected c r → (next r).Follows expected outcome rest

section Follows

variable {expected : (c : Call ω) → c.Reply → Prop} {p : Program ω α} {f : α → Program ω β}
  {calls later : List (Call ω)}

theorem Follows.bind {a : α} {outcome : Outcome (Error ω) β}
    (hp : p.Follows expected (.ok a) calls) (hf : (f a).Follows expected outcome later) :
    (p >>= f).Follows expected outcome (calls ++ later) := by
  induction p generalizing calls with
  | done r =>
    obtain ⟨rfl, rfl⟩ := hp
    exact hf
  | ask c next ih =>
    obtain ⟨rest, rfl, hnext⟩ := hp
    exact ⟨rest ++ later, rfl, fun r hr => ih r (hnext r hr)⟩

end Follows

end Program

end RecordLinkage
