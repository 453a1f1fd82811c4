namespace RecordLinkage

/-- How a piece of work ends: with a value, with an error that it reports, or in a crash. -/
inductive Outcome (ε α : Type) where
  | ok (value : α)
  | error (cause : ε)
  | crash
  deriving DecidableEq, Repr

namespace Outcome

variable {ε α β : Type}

def ofExcept : Except ε α → Outcome ε α
  | .ok a => .ok a
  | .error e => .error e

def bind (x : Outcome ε α) (f : α → Outcome ε β) : Outcome ε β :=
  match x with
  | .ok a => f a
  | .error e => .error e
  | .crash => .crash

def mapError {δ : Type} (f : ε → δ) : Outcome ε α → Outcome δ α
  | .ok a => .ok a
  | .error e => .error (f e)
  | .crash => .crash

instance : Monad (Outcome ε) where
  pure := .ok
  bind := bind

end Outcome

end RecordLinkage
