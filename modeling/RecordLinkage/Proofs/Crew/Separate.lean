import RecordLinkage.Proofs.Pipeline.Operation
import RecordLinkage.Proofs.Drain.Thresholds
import RecordLinkage.Proofs.Program.Stays

namespace RecordLinkage

inductive Report (ω : Type) where
  | vertex (k : VertexKey)
  | pair (pair : PairOutcome ω)
  | block (plan : BlockPlan) (state : BlockState ω)
  | step (step : Step ω)
  | drain (drain : DrainReport ω)
  | sweep (sweep : SweepReport)

namespace Operation

variable {ω : Type}

/-- The graph that an operation works on. -/
def home : Operation ω → GraphId
  | singleton g _ | record _ g _ _ _ _ _ | block _ _ _ g _ _ | step g _ | cluster _ g _ | sweep g => g
  | process _ _ task => task.graph

variable [Weight ω]

def report : Operation ω → Program ω (Report ω)
  | singleton g e => return .vertex (← Program.singleton g e)
  | record scorer g a entityA b entityB index =>
    return .pair (← scorer.record g a entityA b entityB index)
  | process source scorer task => return .pair (← task.process source scorer)
  | block source scorer tally g entries context => do
    let (plan, state) ← recordBlock source scorer tally g entries context
    return .block plan state
  | step g t => return .step (← Drain.step g t)
  | cluster allowance g t => return .drain (← Drain.cluster allowance g t)
  | sweep g => return .sweep (← Sweep.sweep g)

/-- Operations one after another, each carried out whatever became of the one before. -/
def reports : List (Operation ω) → Program ω (List (Outcome (Error ω) (Report ω)))
  | [] => return []
  | op :: rest => do
    let r ← op.report.attempt
    return r :: (← reports rest)

open Program

theorem report_stays (op : Operation ω) : op.report.Stays op.home fun _ => True := by
  cases op with
  | singleton g e => exact (stays_call (c := .singleton g e) rfl).bind fun _ _ => stays_pure trivial
  | record scorer g a entityA b entityB index =>
    exact (scorer.record_stays g a entityA b entityB index).bind fun _ _ => stays_pure trivial
  | process source scorer task =>
    exact (task.process_stays source scorer).bind fun _ _ => stays_pure trivial
  | block source scorer tally g entries context =>
    exact (recordBlock_stays source scorer tally g entries context).bind fun _ _ =>
      stays_pure trivial
  | step g t => exact (Drain.step_stays g t).bind fun _ _ => stays_pure trivial
  | cluster allowance g t =>
    exact (Drain.cluster_stays allowance g t).bind fun _ _ => stays_pure trivial
  | sweep g => exact (Sweep.sweep_stays g).bind fun _ _ => stays_pure trivial

theorem reports_stays {g : GraphId} {ops : List (Operation ω)} (h : ∀ op ∈ ops, op.home = g) :
    (reports ops).Stays g fun _ => True := by
  induction ops with
  | nil => exact stays_pure trivial
  | cons op rest ih =>
    obtain ⟨rfl, hrest⟩ := List.forall_mem_cons.mp h
    exact op.report_stays.attempt.bind fun _ _ => (ih hrest).bind fun _ _ => stays_pure trivial

end Operation

structure Team (ω α : Type) [Weight ω] where
  store : Store ω
  workers : List (Program ω α)

namespace Team

variable {ω α : Type} [Weight ω]

/-- The next call of worker `i`, which draws from `ids` if it draws, and what is left to draw from.
Whoever is done makes no call. -/
def act (team : Team ω α) (i : Nat) (ids : IdSource) : Team ω α × IdSource :=
  match team.workers[i]? with
  | some (.ask c next) =>
    let (answer, after) := c.perform ⟨team.store, ids⟩
    (⟨after.store, team.workers.set i (next (.ofExcept answer))⟩, after.ids)
  | _ => (team, ids)

def run (team : Team ω α) (schedule : List (Nat × IdSource)) : Team ω α :=
  schedule.foldl (fun team x => (team.act x.1 x.2).1) team

/-- The sources that calls meet when all of them draw from one. -/
def share (team : Team ω α) (ids : IdSource) : List Nat → List (Nat × IdSource)
  | [] => []
  | i :: rest => (i, ids) :: (team.act i ids).1.share (team.act i ids).2 rest

/-- Every worker has a graph of its own to work on, which it may have in common with others. -/
def Settled (home : Nat → GraphId) (team : Team ω α) : Prop :=
  ∀ (i : Nat) (p : Program ω α), team.workers[i]? = some p → p.Stays (home i) fun _ => True

/-- Two teams look the same to those who work on `g`. -/
structure Agree (home : Nat → GraphId) (g : GraphId) (team team' : Team ω α) : Prop where
  part : team.store.part g = team'.store.part g
  workers : ∀ i, home i = g → team.workers[i]? = team'.workers[i]?

variable {home : Nat → GraphId} {g : GraphId} {team team' : Team ω α} {i : Nat} {ids : IdSource}

theorem act_eq {c : Call ω} {next : c.Reply → Program ω α}
    (h : team.workers[i]? = some (.ask c next)) :
    team.act i ids = (⟨(c.perform ⟨team.store, ids⟩).2.store,
      team.workers.set i (next (.ofExcept (c.perform ⟨team.store, ids⟩).1))⟩,
      (c.perform ⟨team.store, ids⟩).2.ids) := by
  rw [act, h]

theorem act_idle (h : ∀ c next, team.workers[i]? ≠ some (.ask c next)) :
    team.act i ids = (team, ids) := by
  rw [act]
  split
  · rename_i c next hask
    exact absurd hask (h c next)
  · rfl

theorem Settled.act (h : Settled home team) (i : Nat) (ids : IdSource) :
    Settled home (team.act i ids).1 := by
  -- A worker that is done makes no call.
  by_cases hask : ∃ c next, team.workers[i]? = some (.ask c next)
  · obtain ⟨c, next, hask⟩ := hask
    obtain ⟨hhome, hnext⟩ := h i _ hask
    rw [act_eq hask]
    intro j p hp
    rw [List.getElem?_set] at hp
    split at hp
    · rename_i hij
      subst hij
      split at hp
      · cases hp
        refine hnext _ fun a ha => ?_
        rw [← hhome]
        apply c.names_perform ⟨team.store, ids⟩
        cases hanswer : (c.perform ⟨team.store, ids⟩).1 with
        | ok b =>
          rw [hanswer] at ha
          cases ha
          rfl
        | error cause =>
          rw [hanswer] at ha
          cases ha
      · cases hp
    · exact h j p hp
  · rw [act_idle fun c next h => hask ⟨c, next, h⟩]
    exact h

/-- Who works on `g` does not notice the calls of the others. -/
theorem Agree.elsewhere (h : Agree home g team team') (hsettled : Settled home team')
    (hi : home i ≠ g) : Agree home g team (team'.act i ids).1 := by
  by_cases hask : ∃ c next, team'.workers[i]? = some (.ask c next)
  · obtain ⟨c, next, hask⟩ := hask
    obtain ⟨hhome, -⟩ := hsettled i _ hask
    rw [act_eq hask]
    refine ⟨h.part.trans (c.part_perform_of_ne ⟨team'.store, ids⟩ (hhome ▸ hi)).symm, ?_⟩
    intro j hj
    rw [List.getElem?_set_ne (by rintro rfl; exact hi hj)]
    exact h.workers j hj
  · rw [act_idle fun c next h => hask ⟨c, next, h⟩]
    exact h

theorem Agree.calls (h : Agree home g team team') (hi : home i = g) {ids' : IdSource} {c : Call ω}
    {next : c.Reply → Program ω α} (hask : team'.workers[i]? = some (.ask c next))
    (hanswer : (c.perform ⟨team.store, ids⟩).1 = (c.perform ⟨team'.store, ids'⟩).1)
    (hpart : (c.perform ⟨team.store, ids⟩).2.store.part g =
      (c.perform ⟨team'.store, ids'⟩).2.store.part g) :
    Agree home g (team.act i ids).1 (team'.act i ids').1 := by
  have hask' := (h.workers i hi).trans hask
  have hlength := (List.getElem?_eq_some_iff.mp hask).1
  have hlength' := (List.getElem?_eq_some_iff.mp hask').1
  rw [act_eq hask, act_eq hask']
  refine ⟨hpart, fun j hj => ?_⟩
  rw [hanswer, List.getElem?_set, List.getElem?_set, if_pos hlength, if_pos hlength', h.workers j hj]

/-- What those who work on `g` do, they do alike. -/
theorem Agree.here (h : Agree home g team team') (hsettled : Settled home team') (hi : home i = g)
    (ids : IdSource) : Agree home g (team.act i ids).1 (team'.act i ids).1 := by
  by_cases hask : ∃ c next, team'.workers[i]? = some (.ask c next)
  · obtain ⟨c, next, hask⟩ := hask
    obtain ⟨hhome, -⟩ := hsettled i _ hask
    obtain rfl : c.home = g := hhome.trans hi
    obtain ⟨hanswer, hpart, -⟩ :=
      c.perform_congr ⟨team.store, ids⟩ ⟨team'.store, ids⟩ h.part rfl
    exact h.calls hi hask hanswer hpart
  · rw [act_idle fun c next h => hask ⟨c, next, h⟩,
      act_idle fun c next ha => hask ⟨c, next, (h.workers i hi).symm.trans ha⟩]
    exact h

/-- Leaving out the calls of all others makes no difference to those who work on `g`. -/
theorem Agree.run (h : Agree home g team team') (hsettled : Settled home team')
    (schedule : List (Nat × IdSource)) :
    Agree home g (team.run (schedule.filter fun x => home x.1 = g)) (team'.run schedule) := by
  induction schedule generalizing team team' with
  | nil => exact h
  | cons x schedule ih =>
    have hnext := hsettled.act x.1 x.2
    by_cases hx : home x.1 = g
    · rw [List.filter_cons_of_pos (by simpa using hx)]
      exact ih (h.here hsettled hx x.2) hnext
    · rw [List.filter_cons_of_neg (by simpa using hx)]
      exact ih (h.elsewhere hsettled hx) hnext

def drawsNext (team : Team ω α) (i : Nat) (ids : IdSource) : List Uuid :=
  match team.workers[i]? with
  | some (.ask c _) => c.drawn ⟨team.store, ids⟩
  | _ => []

def drawn (home : Nat → GraphId) (g : GraphId) : Team ω α → List (Nat × IdSource) → List Uuid
  | _, [] => []
  | team, (i, ids) :: rest =>
    (if home i = g then team.drawsNext i ids else []) ++ drawn home g (team.act i ids).1 rest

/-- Whether the next call of worker `i` finds no identifier that is not taken. -/
def starves (team : Team ω α) (i : Nat) (ids : IdSource) : Bool :=
  match team.workers[i]? with
  | some (.ask c _) => c.starved ⟨team.store, ids⟩
  | _ => false

/-- Whether every merge in `g` that is in order finds an identifier. -/
def supplied (home : Nat → GraphId) (g : GraphId) : Team ω α → List (Nat × IdSource) → Bool
  | _, [] => true
  | team, (i, ids) :: rest =>
    !(decide (home i = g) && team.starves i ids) && supplied home g (team.act i ids).1 rest

/-- They also do alike if what they drew is listed for them. -/
theorem Agree.here_listed (h : Agree home g team team') (hsettled : Settled home team')
    (hi : home i = g) (hfed : team'.starves i ids = false)
    (rest : List Uuid) (x : BitVec 64) :
    Agree home g (team.act i ⟨team'.drawsNext i ids ++ rest, x⟩).1 (team'.act i ids).1 ∧
      (team.act i ⟨team'.drawsNext i ids ++ rest, x⟩).2 = ⟨rest, x⟩ := by
  by_cases hask : ∃ c next, team'.workers[i]? = some (.ask c next)
  · obtain ⟨c, next, hask⟩ := hask
    obtain ⟨hhome, -⟩ := hsettled i _ hask
    obtain rfl : c.home = g := hhome.trans hi
    have hdraws : team'.drawsNext i ids = c.drawn ⟨team'.store, ids⟩ := by rw [drawsNext, hask]
    rw [starves, hask] at hfed
    obtain ⟨hanswer, hpart, hids⟩ := c.perform_listed ⟨team'.store, ids⟩ ⟨team.store, ⟨_, x⟩⟩
      hfed h.part rest rfl
    rw [hdraws]
    refine ⟨h.calls hi hask hanswer hpart, ?_⟩
    rw [act_eq ((h.workers i hi).trans hask)]
    exact hids
  · have hdraws : team'.drawsNext i ids = [] := by
      rw [drawsNext]
      split
      · rename_i c next h
        exact absurd ⟨c, next, h⟩ hask
      · rfl
    rw [hdraws, act_idle fun c next h => hask ⟨c, next, h⟩,
      act_idle fun c next ha => hask ⟨c, next, (h.workers i hi).symm.trans ha⟩]
    exact ⟨h, rfl⟩

/-- One source for all of `g` that lists what was drawn for it does as well as those it was drawn
from. -/
theorem Agree.run_share (h : Agree home g team team') (hsettled : Settled home team')
    {schedule : List (Nat × IdSource)} (hfed : team'.supplied home g schedule = true) (x : BitVec 64) :
    Agree home g (team.run (team.share ⟨team'.drawn home g schedule, x⟩
      ((schedule.filter fun x => home x.1 = g).map Prod.fst))) (team'.run schedule) := by
  induction schedule generalizing team team' with
  | nil => exact h
  | cons call schedule ih =>
    obtain ⟨i, ids⟩ := call
    rw [supplied, Bool.and_eq_true, Bool.not_eq_true', Bool.and_eq_false_imp, decide_eq_true_iff] at hfed
    obtain ⟨hcall, hrest⟩ := hfed
    have hnext := hsettled.act i ids
    by_cases hi : home i = g
    · obtain ⟨hagree, hleft⟩ :=
        h.here_listed hsettled hi (hcall hi) ((team'.act i ids).1.drawn home g schedule) x
      have hlater := ih hagree hnext hrest
      rw [← hleft] at hlater
      rw [List.filter_cons_of_pos (by simpa using hi), drawn, if_pos hi]
      exact hlater
    · rw [List.filter_cons_of_neg (by simpa using hi), drawn, if_neg hi, List.nil_append]
      exact ih (h.elsewhere hsettled hi) hnext hrest

theorem run_share_alone (p : Program ω α) (m : Memory ω) :
    ∃ n, (⟨m.store, [p]⟩ : Team ω α).run ((⟨m.store, [p]⟩ : Team ω α).share m.ids
      (List.replicate n 0)) = ⟨(p.run m).2.store, [.done (p.run m).1]⟩ := by
  induction p generalizing m with
  | done r => exact ⟨0, rfl⟩
  | ask c next ih =>
    obtain ⟨n, hn⟩ := ih (.ofExcept (c.perform m).1) (c.perform m).2
    exact ⟨n + 1, hn⟩

end Team

open Team

/-- Graphs never interact. Workers carry out operations, each in one graph, and their calls come in
any order, each with the source that it draws from. What becomes of a graph, and how far its workers
get and with what results, is what comes of its own calls alone, with the same sources. One source
will do instead that lists what was drawn for the graph, unless a merge found no identifier at all. -/
theorem graphs_never_interact {ω : Type} [Weight ω] (s : Store ω) {jobs : List (List (Operation ω))}
    {home : Nat → GraphId}
    (hjobs : ∀ i ops, jobs[i]? = some ops → ∀ op ∈ ops, op.home = home i)
    (schedule : List (Nat × IdSource)) (g : GraphId) :
    let start : Team ω (List (Outcome (Error ω) (Report ω))) := ⟨s, jobs.map Operation.reports⟩
    let own := schedule.filter fun x => home x.1 = g
    Agree home g (start.run own) (start.run schedule) ∧
      (start.supplied home g schedule = true → ∀ x,
        Agree home g (start.run (start.share ⟨start.drawn home g schedule, x⟩ (own.map Prod.fst)))
          (start.run schedule)) := by
  intro start own
  have hsettled : Settled home start := by
    intro i p hp
    rw [List.getElem?_map, Option.map_eq_some_iff] at hp
    obtain ⟨ops, hops, rfl⟩ := hp
    exact Operation.reports_stays (hjobs i ops hops)
  have hsame : Agree home g start start := ⟨rfl, fun _ _ => rfl⟩
  exact ⟨hsame.run hsettled schedule, fun hfed x => hsame.run_share hsettled hfed x⟩

/-- Two graphs that look alike, each with a drain, and an outsider in the second one. -/
def alikeJobs : List (List (Operation Binary64)) :=
  [[.cluster 4 ⟨⟨1⟩⟩ defaultThreshold], [.cluster 4 ⟨⟨2⟩⟩ defaultThreshold],
    [.step ⟨⟨2⟩⟩ defaultThreshold, .sweep ⟨⟨2⟩⟩]]

def alikeHome (i : Nat) : GraphId := if i = 0 then ⟨⟨1⟩⟩ else ⟨⟨2⟩⟩

def alike : Team Binary64 (List (Outcome (Error Binary64) (Report Binary64))) :=
  ⟨((∅ : Store Binary64).setGraph ⟨⟨1⟩⟩ unevenPath).setGraph ⟨⟨2⟩⟩ unevenPath,
    alikeJobs.map Operation.reports⟩

def mergesOf : Option (Program Binary64 (List (Outcome (Error Binary64) (Report Binary64)))) →
    Option Nat
  | some (.done (.ok [.ok (.drain r)])) => some r.merges
  | _ => none

/-- All three take turns and draw from one source. The drain of the first graph ends with two merges,
and left alone with the identifiers that were drawn for it, it ends with the same clusters. -/
theorem alike_apart :
    let schedule := alike.share ⟨[], 0⟩ (List.replicate 60 [0, 1, 2]).flatten
    let own := schedule.filter fun x => alikeHome x.1 = ⟨⟨1⟩⟩
    let alone := alike.run (alike.share ⟨alike.drawn alikeHome ⟨⟨1⟩⟩ schedule, 0⟩ (own.map Prod.fst))
    (∀ i ops, alikeJobs[i]? = some ops → ∀ op ∈ ops, op.home = alikeHome i) ∧
      alike.supplied alikeHome ⟨⟨1⟩⟩ schedule = true ∧
      alone.store.part ⟨⟨1⟩⟩ = (alike.run schedule).store.part ⟨⟨1⟩⟩ ∧
      alone.workers[0]? = (alike.run schedule).workers[0]? ∧
      mergesOf (alike.run schedule).workers[0]? = some 2 := by
  intro schedule own alone
  have hjobs : ∀ i ops, alikeJobs[i]? = some ops → ∀ op ∈ ops, op.home = alikeHome i := by
    intro i ops hops
    match i, hops with
    | 0, h | 1, h | 2, h =>
      cases h
      simp [Operation.home, alikeHome]
  have hfed : alike.supplied alikeHome ⟨⟨1⟩⟩ schedule = true := by decide +kernel
  have hends : mergesOf (alike.run schedule).workers[0]? = some 2 := by decide +kernel
  obtain ⟨hpart, hworkers⟩ :=
    (graphs_never_interact alike.store hjobs schedule ⟨⟨1⟩⟩).2 hfed 0
  exact ⟨hjobs, hfed, hpart, hworkers 0 rfl, hends⟩

end RecordLinkage
