import RecordLinkage.Progress.Counter
import RecordLinkage.Progress.Wait

namespace RecordLinkage

/-- What may happen while somebody sleeps: pairs are recorded, one fails, the wait is called off, or
waiting pairs are scored. -/
inductive WaitEvent where
  | complete (count : Nat)
  | fail (reason : String)
  | cancel
  | run (count : Nat)
  deriving DecidableEq, Repr

/-- A wait whose sleeps follow a script: the events of the first sleep, of the second, and so on.
Nothing happens after the end of the script. -/
structure Scripted (σ : Type) where
  state : σ
  script : List (List WaitEvent)
  sleeps : Nat
  cancelled : Bool

namespace Scripted

variable {σ : Type}

def sleep (act : WaitEvent → σ → σ) (w : Scripted σ) : Scripted σ where
  state := (w.script.headD []).foldl (fun s e => act e s) w.state
  script := w.script.tail
  sleeps := w.sleeps + 1
  cancelled := w.cancelled || (w.script.headD []).contains .cancel

def around (act : WaitEvent → σ → σ) (remaining failed : Scripted σ → Nat) :
    Surroundings (Scripted σ) where
  remaining := remaining
  failed := failed
  cancelled := Scripted.cancelled
  sleep := sleep act

/-- Waits to the end. When the script is over and `settled` further sleeps have passed the readings
no longer change, so that `maxStalls` sleeps more are enough. -/
def wait (surroundings : Surroundings (Scripted σ)) (policy : PollPolicy) (settled : Nat)
    (w : Scripted σ) : Option Verdict × Scripted σ :=
  Wait.within surroundings policy.maxStalls (w.script.length + settled + policy.maxStalls + 1) w

def slept (policy : PollPolicy) (w : Scripted σ) : Nat :=
  min (w.sleeps * policy.interval) 0xffffffffffffffff

end Scripted

namespace Countdown

def act : WaitEvent → Countdown → Countdown
  | .complete n, c => c.complete n
  | .fail reason, c => c.failOne reason
  | _, c => c

def around : Surroundings (Scripted Countdown) :=
  Scripted.around act (fun w => w.state.remaining) fun w => w.state.failed

end Countdown

/-- Prescribed readings of a counter, one for each number of sleeps; the last one stays. -/
structure Readings where
  values : List Nat
  failed : Nat
  deriving DecidableEq, Repr

namespace Readings

def at? (r : Readings) (sleeps : Nat) : Option Nat :=
  r.values[min sleeps (r.values.length - 1)]?

def around : Surroundings (Scripted Readings) :=
  Scripted.around (fun _ r => r) (fun w => (w.state.at? w.sleeps).getD 0) fun w => w.state.failed

end Readings

end RecordLinkage
