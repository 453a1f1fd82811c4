import RecordLinkage.Proofs.Pipeline.Operation

namespace RecordLinkage

/-- How a call of a worker goes: it is served, or the worker gets an error or crashes, and then the
call may have been carried out or not. -/
inductive Fate (ω : Type) where
  | served
  | failed (cause : StoreError ω) (carriedOut : Bool)
  | crashed (carriedOut : Bool)

/-- Workers that share a memory, each with what it still has to do, and the calls that were carried
out, with the number of the worker who made them. -/
structure Crew (ω : Type) [Weight ω] where
  memory : Memory ω
  workers : List (Program ω Unit)
  history : List (Nat × Event ω)

namespace Crew

variable {ω : Type} [Weight ω]

def start (m : Memory ω) (ops : List (Operation ω)) : Crew ω := ⟨m, ops.map Operation.program, []⟩

def act (crew : Crew ω) (i : Nat) (fate : Fate ω) : Crew ω :=
  match crew.workers[i]? with
  | some (.ask c next) =>
    let (answer, after) := c.perform crew.memory
    let carried : Crew ω := ⟨after, crew.workers, crew.history ++ [(i, ⟨crew.memory, c⟩)]⟩
    match fate with
    | .served => { carried with workers := crew.workers.set i (next (.ofExcept answer)) }
    | .failed cause carriedOut =>
      { (if carriedOut then carried else crew) with
        workers := crew.workers.set i (next (.error cause)) }
    | .crashed carriedOut =>
      { (if carriedOut then carried else crew) with workers := crew.workers.set i (next .crash) }
  | _ => crew

/-- Calls in any order. A worker that is never named again has stopped for good. -/
def run (crew : Crew ω) (schedule : List (Nat × Fate ω)) : Crew ω :=
  schedule.foldl (fun crew x => crew.act x.1 x.2) crew

/-- What a call may change: nothing, or the memory as the call does it, and the worker goes on with
an answer only if it is that of the call. -/
inductive Acts (crew : Crew ω) : Crew ω → Prop where
  | idle : Acts crew crew
  | missed {i : Nat} {c : Call ω} {next : c.Reply → Program ω Unit} (reply : c.Reply)
    (asks : crew.workers[i]? = some (.ask c next)) (unanswered : ∀ a, reply ≠ .ok a) :
    Acts crew ⟨crew.memory, crew.workers.set i (next reply), crew.history⟩
  | carried {i : Nat} {c : Call ω} {next : c.Reply → Program ω Unit} (reply : c.Reply)
    (asks : crew.workers[i]? = some (.ask c next))
    (answered : ∀ a, reply = .ok a → (c.perform crew.memory).1 = .ok a) :
    Acts crew ⟨(c.perform crew.memory).2, crew.workers.set i (next reply),
      crew.history ++ [(i, ⟨crew.memory, c⟩)]⟩

theorem acts (crew : Crew ω) (i : Nat) (fate : Fate ω) : crew.Acts (crew.act i fate) := by
  unfold act
  split
  · rename_i c next asks
    cases fate with
    | served =>
      refine .carried (.ofExcept (c.perform crew.memory).1) asks ?_
      intro a ha
      cases hperform : (c.perform crew.memory).1 with
      | ok b =>
        rw [hperform] at ha
        cases ha
        rfl
      | error cause =>
        rw [hperform] at ha
        cases ha
    | failed cause carriedOut =>
      cases carriedOut with
      | true => exact .carried (.error cause) asks nofun
      | false => exact .missed (.error cause) asks nofun
    | crashed carriedOut =>
      cases carriedOut with
      | true => exact .carried .crash asks nofun
      | false => exact .missed .crash asks nofun
  · exact .idle

/-- What every call preserves, every schedule preserves. -/
theorem run_induct {I : Crew ω → Prop} (step : ∀ crew crew', crew.Acts crew' → I crew → I crew')
    {crew : Crew ω} (h : I crew) (schedule : List (Nat × Fate ω)) : I (crew.run schedule) := by
  induction schedule generalizing crew with
  | nil => exact h
  | cons x schedule ih => exact ih (step _ _ (crew.acts x.1 x.2) h)

end Crew

end RecordLinkage
