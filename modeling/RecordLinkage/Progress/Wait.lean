import RecordLinkage.Error

namespace RecordLinkage

/-- How often progress is looked at, and how many looks without progress are borne. -/
structure PollPolicy where
  interval : Nat
  maxStalls : Nat
  deriving DecidableEq, Repr

def defaultPolicy : PollPolicy := ⟨5000, 5⟩

/-- What a wait looks at: the outstanding and the failed pairs, whether it was called off, and how
the surroundings change while it sleeps. -/
structure Surroundings (σ : Type) where
  remaining : σ → Nat
  failed : σ → Nat
  cancelled : σ → Bool
  sleep : σ → σ

inductive Verdict where
  | complete
  | stalled (stall : Stall)
  | cancelled (remaining : Nat)
  deriving DecidableEq, Repr

def Verdict.message? : Verdict → Option String
  | .complete => none
  | .stalled s => some s.message
  | .cancelled n => some ("wait cancelled with " ++ toString n ++ " pairs outstanding")

namespace Wait

variable {σ : Type}

/-- Sleeps and looks again until nothing is outstanding, until the wait is called off, or until
`maxStalls` looks in a row show no decrease. `none` after more than `sleeps` sleeps. -/
def poll (around : Surroundings σ) (maxStalls : Nat) :
    (sleeps last stalls : Nat) → σ → Option Verdict × σ
  | sleeps, last, stalls, s =>
    if last = 0 then (some .complete, s)
    else if around.cancelled s then (some (.cancelled last), s)
    else
      match sleeps with
      | 0 => (none, s)
      | sleeps + 1 =>
        let s := around.sleep s
        let now := around.remaining s
        if now = 0 then (some .complete, s)
        else
          let stalls := if now < last then 0 else stalls + 1
          if maxStalls ≤ stalls then (some (.stalled ⟨now, stalls, around.failed s⟩), s)
          else poll around maxStalls sleeps now stalls s

def within (around : Surroundings σ) (maxStalls sleeps : Nat) (s : σ) : Option Verdict × σ :=
  poll around maxStalls sleeps (around.remaining s) 0 s

/-- A wait that nobody can call off. -/
def steadfast (around : Surroundings σ) : Surroundings σ :=
  { around with cancelled := fun _ => false }

end Wait

end RecordLinkage
