import RecordLinkage.Proofs.Block.Scored
import RecordLinkage.Proofs.Recording.Basic

namespace RecordLinkage

variable {ω : Type}

def Outcome.isOk {ε α : Type} : Outcome ε α → Bool
  | .ok _ => true
  | _ => false

namespace Worker

variable {β : Type}

def work : Worker β → List β
  | .held work => [work]
  | _ => []

theorem perm_work_set {ws : List (Worker β)} {i : Nat} {w : Worker β} (h : ws[i]? = some w)
    (w' : Worker β) : (w.work ++ (ws.set i w').flatMap work).Perm (w'.work ++ ws.flatMap work) := by
  induction ws generalizing i with
  | nil => cases h
  | cons x ws ih =>
    cases i with
    | zero =>
      cases h
      exact List.perm_append_comm_assoc _ _ _
    | succ i =>
      rw [List.set_cons_succ, List.flatMap_cons, List.flatMap_cons]
      refine (List.perm_append_comm_assoc _ _ _).trans ?_
      exact ((ih h).append_left x.work).trans (List.perm_append_comm_assoc _ _ _)

end Worker

namespace PairTask

/-- The exchanges that leave the mark of a pair: the vertex of a self-pair was made sure of and found
live, or the edge between the vertices of two entities was accepted. -/
def Marked (t : PairTask) (log : List (Exchange ω)) : Prop :=
  (t.a = t.b ∧ ∃ k c, (⟨.singleton t.graph t.a, .ok k⟩ : Exchange ω) ∈ log ∧
    (⟨.cluster k, .ok (some c)⟩ : Exchange ω) ∈ log) ∨
  (t.a ≠ t.b ∧ ∃ x y e w, (⟨.singleton t.graph t.a, .ok x⟩ : Exchange ω) ∈ log ∧
    (⟨.singleton t.graph t.b, .ok y⟩ : Exchange ω) ∈ log ∧
    Edge.between (ω := ω) x y = .ok e ∧ (⟨.putEdge e w, .ok ()⟩ : Exchange ω) ∈ log)

end PairTask

section Exchanges

open Program

/-- Making sure of a vertex takes two exchanges, which show that it is live. -/
theorem Scorer.liveSingleton_obeys (g : GraphId) (e : EntityKey) {n : Nat}
    {log : List (Exchange ω)} (h : log.length + 2 ≤ n) :
    (liveSingleton g e : Program ω VertexKey).Obeys (atMost ω n)
      (fun log' o => log'.length ≤ log.length + 2 ∧ log ⊆ log' ∧ ∀ k, o = .ok k →
        (⟨.singleton g e, .ok k⟩ : Exchange ω) ∈ log' ∧
          ∃ c, (⟨.cluster k, .ok (some c)⟩ : Exchange ω) ∈ log') log := by
  refine ⟨by show log.length < n; omega, fun r => ?_⟩
  cases r with
  | ok k =>
    refine ⟨by show (log ++ _).length < n; simp; omega, fun r => ?_⟩
    cases r with
    | ok found =>
      cases found with
      | some c =>
        refine ⟨by simp [atMost], by simp [atMost], fun k' hk' => ?_⟩
        cases hk'
        exact ⟨by simp [atMost], c, by simp [atMost]⟩
      | none => exact ⟨by simp [atMost], by simp [atMost], nofun⟩
    | error cause => exact ⟨by simp [atMost], by simp [atMost], nofun⟩
    | crash => exact ⟨by simp [atMost], by simp [atMost], nofun⟩
  | error cause => exact ⟨by simp [atMost], by simp [atMost], nofun⟩
  | crash => exact ⟨by simp [atMost], by simp [atMost], nofun⟩

variable [Weight ω]

/-- Whatever is replied, a pair takes at most five exchanges, and it ends well only after they have
left its mark. -/
theorem PairTask.process_obeys (t : PairTask) (source : EntitySource ω) (scorer : Scorer ω) :
    (t.process source scorer).Obeys (atMost ω 5)
      (fun log o => log.length ≤ 5 ∧ (o.isOk = true → t.Marked log)) [] := by
  have hstart : ([] : List (Exchange ω)).length + 2 ≤ 5 := by simp
  unfold process
  cases t.entities source with
  | error e => exact ⟨Nat.zero_le 5, nofun⟩
  | crash => exact ⟨Nat.zero_le 5, nofun⟩
  | ok entities =>
    show (scorer.record t.graph t.a entities.1 t.b entities.2 t.context.index).Obeys _ _ _
    unfold Scorer.record
    split
    · rename_i hsame
      refine (Scorer.liveSingleton_obeys t.graph t.a hstart).bind ?_
        (fun log e hlog => ⟨Nat.le_trans hlog.1 hstart, nofun⟩)
        (fun log hlog => ⟨Nat.le_trans hlog.1 hstart, nofun⟩)
      intro log k hlog
      obtain ⟨hlength, -, hmark⟩ := hlog
      obtain ⟨hmade, c, hlive⟩ := hmark k rfl
      exact ⟨Nat.le_trans hlength hstart, fun _ => .inl ⟨hsame, k, c, hmade, hlive⟩⟩
    · rename_i hdistinct
      refine (Scorer.liveSingleton_obeys t.graph t.a hstart).bind ?_
        (fun log e hlog => ⟨Nat.le_trans hlog.1 hstart, nofun⟩)
        (fun log hlog => ⟨Nat.le_trans hlog.1 hstart, nofun⟩)
      intro log x hlog
      obtain ⟨hlength, -, hmark⟩ := hlog
      obtain ⟨hmadeA, -⟩ := hmark x rfl
      replace hlength : log.length ≤ 2 := hlength
      refine (Scorer.liveSingleton_obeys t.graph t.b (n := 5) (by omega)).bind ?_
        (fun log' e hlog' => ⟨by have := hlog'.1; omega, nofun⟩)
        (fun log' hlog' => ⟨by have := hlog'.1; omega, nofun⟩)
      intro log' y hlog'
      obtain ⟨hlength', hkept, hmark'⟩ := hlog'
      obtain ⟨hmadeB, -⟩ := hmark' y rfl
      replace hlength' : log'.length ≤ 4 := by omega
      have hfailed (o : Outcome (Error ω) (PairOutcome ω)) (ho : o.isOk = false) :
          log'.length ≤ 5 ∧ (o.isOk = true → t.Marked log') :=
        ⟨by omega, fun h => by rw [ho] at h; cases h⟩
      -- The weight and the edge take no exchanges.
      cases hweigh : scorer.weigh entities.1 entities.2 t.context.index with
      | error cause => exact hfailed (.error _) rfl
      | crash => exact hfailed .crash rfl
      | ok w =>
        cases hedge : Edge.between (ω := ω) x y with
        | error cause => exact hfailed (.error _) rfl
        | ok e =>
          refine ⟨by show log'.length < 5; omega, fun reply => ?_⟩
          have hlength'' : (log' ++ [(⟨.putEdge e w, reply⟩ : Exchange ω)]).length ≤ 5 := by
            rw [List.length_append, List.length_singleton]
            omega
          cases reply with
          | ok a =>
            refine ⟨hlength'', fun _ => .inr ⟨hdistinct, x, y, e, w, ?_, ?_, hedge, ?_⟩⟩
            · exact List.mem_append_left _ (hkept hmadeA)
            · exact List.mem_append_left _ hmadeB
            · exact List.mem_append_right _ List.mem_cons_self
          | error cause => exact ⟨hlength'', nofun⟩
          | crash => exact ⟨hlength'', nofun⟩

end Exchanges

variable [Weight ω]

/-- The answers in an account were given by calls that were carried out. -/
def Backed (history : List (Event ω)) (log : List (Exchange ω)) : Prop :=
  ∀ x ∈ log, ∀ a, x.2 = .ok a →
    ∃ m, (⟨m, x.1⟩ : Event ω) ∈ history ∧ (x.1.perform m).1 = .ok a

/-- A pair was written: the vertex of a self-pair was made sure of and found live, or the edge
between the vertices of two entities was stored. -/
def PairTask.Written (t : PairTask) (history : List (Event ω)) : Prop :=
  (t.a = t.b ∧ (∃ x ∈ history, x.call = .singleton t.graph t.a) ∧
    ∃ x ∈ history, x.call = .cluster ⟨t.graph, t.a.singletonId t.graph⟩ ∧
      x.before.store.live ⟨t.graph, t.a.singletonId t.graph⟩ = true) ∨
  (t.a ≠ t.b ∧ ∃ x ∈ history, ∃ l w,
    Link.between? (t.a.singletonId t.graph) (t.b.singletonId t.graph) = some l ∧
      x.call = .putEdge ⟨t.graph, l⟩ w ∧ x.after.store.weight? ⟨t.graph, l⟩ = some w)

omit [Weight ω] in
theorem Edge.between_eq_ok {g : GraphId} {a b : VertexId} {e : Edge} :
    Edge.between (ω := ω) ⟨g, a⟩ ⟨g, b⟩ = .ok e ↔ ∃ l, Link.between? a b = some l ∧ e = ⟨g, l⟩ := by
  rw [Edge.between, if_neg (not_not_intro rfl)]
  cases Link.between? a b <;> simp [eq_comm]

/-- A link whose storing was accepted has the weight that was stored. -/
theorem Call.weight?_of_putEdge {e : Edge} {w : ω} {m : Memory ω}
    (h : ((Call.putEdge e w).perform m).1 = .ok ()) :
    ((Call.putEdge e w).perform m).2.store.weight? e = some w := by
  simp only [perform] at h ⊢
  cases hput : m.store.putEdge e w with
  | error cause =>
    rw [hput] at h
    cases h
  | ok s =>
    exact (Store.weight?_putEdge hput e).trans (if_pos rfl)

/-- A pair in hand goes on by the rules, and the answers that it got were given. -/
structure PairJob.Sound (history : List (Event ω)) (job : PairJob ω) : Prop where
  obeys : job.rest.Obeys (Program.atMost ω 5)
    (fun log o => log.length ≤ 5 ∧ (o.isOk = true → job.task.Marked log)) job.log
  backed : Backed history job.log

theorem Backed.mono {history history' : List (Event ω)} {log : List (Exchange ω)}
    (h : Backed history log) (hsub : history ⊆ history') : Backed history' log := by
  intro x hx a ha
  obtain ⟨m, hm, hanswer⟩ := h x hx a ha
  exact ⟨m, hsub hm, hanswer⟩

theorem Backed.append {history : List (Event ω)} {log : List (Exchange ω)}
    (h : Backed history log) {c : Call ω} {reply : c.Reply}
    (hc : ∀ a, reply = .ok a →
      ∃ m, (⟨m, c⟩ : Event ω) ∈ history ∧ (c.perform m).1 = .ok a) :
    Backed history (log ++ [⟨c, reply⟩]) := by
  intro x hx a ha
  rcases List.mem_append.mp hx with hx | hx
  · exact h x hx a ha
  · rw [List.mem_singleton] at hx
    subst hx
    exact hc a ha

/-- A pair that left its mark by answers that were given was written. -/
theorem PairTask.Marked.written {t : PairTask} {history : List (Event ω)}
    {log : List (Exchange ω)} (h : t.Marked log) (hbacked : Backed history log) :
    t.Written history := by
  rcases h with ⟨hsame, k, c, hmade, hfound⟩ | ⟨hdistinct, x, y, e, w, hmadeA, hmadeB, hedge, hput⟩
  · obtain ⟨m, hm, hanswer⟩ := hbacked _ hmade k rfl
    obtain ⟨m', hm', hanswer'⟩ := hbacked _ hfound (some c) rfl
    cases hanswer
    refine .inl ⟨hsame, ⟨_, hm, rfl⟩, _, hm', rfl, ?_⟩
    exact Graph.live_iff.mpr ⟨c, Except.ok.inj hanswer'⟩
  · obtain ⟨m, hm, hanswer⟩ := hbacked _ hmadeA x rfl
    obtain ⟨m', hm', hanswer'⟩ := hbacked _ hmadeB y rfl
    obtain ⟨m'', hm'', hanswer''⟩ := hbacked _ hput () rfl
    cases hanswer
    cases hanswer'
    obtain ⟨l, hl, rfl⟩ := Edge.between_eq_ok.mp hedge
    exact .inr ⟨hdistinct, _, hm'', l, w, hl, rfl, Call.weight?_of_putEdge hanswer''⟩

theorem PairTask.Written.mono {t : PairTask} {history history' : List (Event ω)}
    (h : t.Written history) (hsub : history ⊆ history') : t.Written history' := by
  rcases h with ⟨hsame, ⟨x, hx, hmade⟩, y, hy, hfound⟩ | ⟨hdistinct, x, hx, hput⟩
  · exact .inl ⟨hsame, ⟨x, hsub hx, hmade⟩, y, hsub hy, hfound⟩
  · exact .inr ⟨hdistinct, x, hsub hx, hput⟩

namespace Recording

def inHand (r : Recording ω) : List PairTask :=
  (r.pool.workers.flatMap Worker.work).map PairJob.task

def completed (r : Recording ω) : List PairTask :=
  (r.ended.filter fun x => x.outcome.isOk).map PairResult.task

def failed (r : Recording ω) : List PairTask :=
  (r.ended.filter fun x => !x.outcome.isOk).map PairResult.task

/-- Where the pairs are: not handed off, in the queue, in hand, or done with. -/
def places (r : Recording ω) : List PairTask :=
  r.pending ++ (r.pool.queue ++ (r.inHand ++ r.ended.map PairResult.task))

def Finished (r : Recording ω) : Prop := r.pending = [] ∧ r.pool.queue = [] ∧ r.inHand = []

/-- A caller who scores by itself did not crash. -/
def Unbroken (d : Dispatcher) (r : Recording ω) : Prop :=
  d = .inline → ∀ x ∈ r.ended, x.outcome ≠ .crash

/-- Every pair of a block is in one place, and the countdown tells how the pairs ended. -/
structure Ledger (d : Dispatcher) (tasks : List PairTask) (r : Recording ω) : Prop where
  places : r.places.Perm tasks
  remaining : r.countdown.remaining + r.completed.length = tasks.length
  failed : r.Unbroken d → r.countdown.failed = r.failed.length
  jobs : ∀ job ∈ r.pool.workers.flatMap Worker.work, job.Sound r.history
  written : ∀ t ∈ r.completed, t.Written r.history

variable {d : Dispatcher} {tasks : List PairTask} {r r' : Recording ω} {i : Nat}

/-- The pairs that a worker holds give way to those that it takes in hand. -/
theorem count_places_setWorker {w : Worker (PairJob ω)} (h : r.pool.workers[i]? = some w)
    (w' : Worker (PairJob ω)) (t : PairTask) :
    (w.work.map PairJob.task).count t + (r.setWorker i w').places.count t =
      (w'.work.map PairJob.task).count t + r.places.count t := by
  have hhand := ((Worker.perm_work_set h w').map PairJob.task).count_eq t
  simp only [List.map_append, List.count_append] at hhand
  simp only [places, inHand, setWorker, List.count_append]
  omega

theorem mem_work_setWorker {w : Worker (PairJob ω)} {job : PairJob ω}
    (h : job ∈ (r.setWorker i w).pool.workers.flatMap Worker.work) :
    job ∈ w.work ∨ job ∈ r.pool.workers.flatMap Worker.work := by
  obtain ⟨w', hw', hjob⟩ := List.mem_flatMap.mp h
  rcases List.mem_or_eq_of_mem_set hw' with hw' | rfl
  · exact .inr (List.mem_flatMap.mpr ⟨w', hw', hjob⟩)
  · exact .inl hjob

theorem mem_work {job : PairJob ω} (h : r.pool.workers[i]? = some (.held job)) :
    job ∈ r.pool.workers.flatMap Worker.work :=
  List.mem_flatMap.mpr ⟨_, List.mem_of_getElem? h, List.mem_singleton.mpr rfl⟩

/-- A free worker gets the next pair from where it waits, and nothing else changes. -/
theorem next?_eq_some {t : PairTask} (h : r.next? d = some (t, r')) :
    (∃ rest, r.pending = t :: rest ∧ d = .inline ∧ r' = { r with pending := rest }) ∨
      ∃ rest, r.pool.queue = t :: rest ∧ d ≠ .inline ∧
        r' = { r with pool := { r.pool with queue := rest } } := by
  cases d with
  | inline =>
    rw [next?] at h
    cases hpending : r.pending with
    | nil =>
      rw [hpending] at h
      cases h
    | cons t' rest =>
      rw [hpending] at h
      cases h
      exact .inl ⟨rest, rfl, rfl, rfl⟩
  | workers count capacity =>
    rw [next?] at h
    cases hqueue : r.pool.queue with
    | nil =>
      rw [hqueue] at h
      cases h
    | cons t' rest =>
      rw [hqueue] at h
      cases h
      exact .inr ⟨rest, rfl, nofun, rfl⟩

omit [Weight ω] in
theorem work_afterwards {α : Type} (d : Dispatcher) (o : Outcome (Error ω) α) :
    (d.afterwards o : Worker (PairJob ω)).work = [] := by
  unfold Dispatcher.afterwards
  split <;> rfl

/-- A pair moves from one place to another, and none is lost or made. -/
theorem Changes.places {mv : Move ω} (h : r.Changes d mv r') : r'.places.Perm r.places := by
  -- It is enough to count each pair before and after the move.
  rw [List.perm_iff_count]
  intro t'
  cases h with
  | idle => rfl
  | handedOff service unclosed pending room =>
    simp only [Recording.places, pending, inHand, List.count_append, List.count_cons, List.count_nil]
    omega
  | @taken i source scorer t r₁ free found =>
    have hfree : r₁.pool.workers[i]? = some .free := by
      rcases next?_eq_some found with ⟨rest, -, -, rfl⟩ | ⟨rest, -, -, rfl⟩ <;> exact free
    have hnext : r.places.count t' = [t].count t' + r₁.places.count t' := by
      rcases next?_eq_some found with ⟨rest, hpending, -, rfl⟩ | ⟨rest, hqueue, -, rfl⟩
      · simp only [Recording.places, hpending, inHand, List.count_append, List.count_cons,
          List.count_nil]
        omega
      · simp only [Recording.places, hqueue, inHand, List.count_append, List.count_cons,
          List.count_nil]
        omega
    have hcount := count_places_setWorker hfree (.held ⟨t, [], t.process source scorer⟩) t'
    rw [hnext]
    exact (Nat.zero_add _).symm.trans hcount
  | missed reply held faulty unserved =>
    exact Nat.add_left_cancel (count_places_setWorker held (.held ⟨_, _, _⟩) t')
  | @carried i fate t log c next reply held answered served =>
    have hheld : (r.carry c).pool.workers[i]? = some (.held ⟨t, log, .ask c next⟩) := held
    exact Nat.add_left_cancel (count_places_setWorker hheld (.held ⟨_, _, _⟩) t')
  | @finished i t log o held =>
    have hcount := count_places_setWorker held (d.afterwards o) t'
    rw [work_afterwards] at hcount
    simp only [Recording.places, inHand, setWorker, Worker.work, List.map_append, List.map_cons,
      List.map_nil, List.count_append, List.count_nil] at hcount ⊢
    omega
  | closed => rfl
  | left service closed empty free =>
    exact Nat.add_left_cancel (count_places_setWorker free .gone t')
  | others m => rfl

theorem next?_keeps {t : PairTask} (h : r.next? d = some (t, r')) :
    r'.ended = r.ended ∧ r'.countdown = r.countdown ∧ r'.tally = r.tally ∧ r'.memory = r.memory ∧
      r'.history = r.history ∧ r'.closed = r.closed ∧ r'.pool.workers = r.pool.workers := by
  rcases next?_eq_some h with ⟨rest, -, -, rfl⟩ | ⟨rest, -, -, rfl⟩ <;>
    exact ⟨rfl, rfl, rfl, rfl, rfl, rfl, rfl⟩

theorem Changes.counts {mv : Move ω} (h : r.Changes d mv r') :
    (r'.ended = r.ended ∧ r'.countdown = r.countdown ∧ r'.tally = r.tally) ∨
      ∃ t log o, (⟨t, log, .done o⟩ : PairJob ω) ∈ r.pool.workers.flatMap Worker.work ∧
        r'.ended = r.ended ++ [⟨t, log, o⟩] ∧ r'.countdown = d.settle r.countdown o ∧
        r'.tally = r.tally.after o := by
  cases h with
  | taken free found =>
    obtain ⟨hended, hcountdown, htally, -⟩ := next?_keeps found
    exact .inl ⟨hended, hcountdown, htally⟩
  | @finished i t log o held => exact .inr ⟨t, log, o, mem_work held, rfl, rfl, rfl⟩
  | idle | handedOff | missed | carried | closed | left | others => exact .inl ⟨rfl, rfl, rfl⟩

theorem Changes.history {mv : Move ω} (h : r.Changes d mv r') : r.history ⊆ r'.history := by
  cases h with
  | taken free found => exact (next?_keeps found).2.2.2.2.1 ▸ List.Subset.refl _
  | carried => exact List.subset_append_left _ _
  | idle | handedOff | missed | finished | closed | left | others => exact List.Subset.refl _

omit [Weight ω] in
theorem length_filter_concat (p : PairResult ω → Bool) (l : List (PairResult ω))
    (x : PairResult ω) :
    ((l ++ [x]).filter p).length = (l.filter p).length + if p x then 1 else 0 := by
  rw [List.filter_append, List.length_append]
  cases hp : p x <;> simp [hp]

theorem remaining_settle {α : Type} (d : Dispatcher) (c : Countdown) (o : Outcome (Error ω) α) :
    (d.settle c o).remaining = c.remaining - if o.isOk then 1 else 0 := by
  cases d <;> cases o <;> rfl

theorem failed_settle {α : Type} (d : Dispatcher) (c : Countdown) {o : Outcome (Error ω) α}
    (h : d = .inline → o ≠ .crash) :
    (d.settle c o).failed = c.failed + if !o.isOk then 1 else 0 := by
  cases d with
  | inline =>
    cases o with
    | ok | error => rfl
    | crash => exact absurd rfl (h rfl)
  | workers => cases o <;> rfl

theorem length_ended_le (h : r.places.Perm tasks) : r.ended.length ≤ tasks.length := by
  rw [← h.length_eq, places, List.length_append, List.length_append, List.length_append,
    List.length_map]
  omega

theorem Changes.jobs {mv : Move ω} (h : r.Changes d mv r')
    (hjobs : ∀ job ∈ r.pool.workers.flatMap Worker.work, job.Sound r.history) :
    ∀ job ∈ r'.pool.workers.flatMap Worker.work, job.Sound r'.history := by
  have hkept (job : PairJob ω) (hjob : job ∈ r.pool.workers.flatMap Worker.work) :
      job.Sound r'.history := ⟨(hjobs job hjob).obeys, (hjobs job hjob).backed.mono h.history⟩
  cases h with
  | idle | handedOff | closed | others => exact hjobs
  | @taken i source scorer t r₁ free found =>
    intro job hjob
    rcases mem_work_setWorker hjob with hnew | hold
    · rw [Worker.work, List.mem_singleton] at hnew
      subst hnew
      exact ⟨t.process_obeys source scorer, nofun⟩
    · rw [(next?_keeps found).2.2.2.2.2.2] at hold
      exact hkept job hold
  -- The reply was made up, so it adds no answer that a store gave.
  | @missed i fate t log c next reply held faulty unserved =>
    intro job hjob
    rcases mem_work_setWorker hjob with hnew | hold
    · have hbefore := hjobs _ (mem_work held)
      rw [Worker.work, List.mem_singleton] at hnew
      subst hnew
      exact ⟨hbefore.obeys.2 reply, hbefore.backed.append fun a ha => absurd ha (faulty a)⟩
    · exact hkept job hold
  -- The answer in the account is the one that the call got from the memory of that moment.
  | @carried i fate t log c next reply held answered served =>
    intro job hjob
    rcases mem_work_setWorker hjob with hnew | hold
    · have hbefore := hjobs _ (mem_work held)
      rw [Worker.work, List.mem_singleton] at hnew
      subst hnew
      refine ⟨hbefore.obeys.2 reply, (hbefore.backed.mono (List.subset_append_left _ _)).append ?_⟩
      intro a ha
      exact ⟨r.memory, List.mem_append_right _ (List.mem_singleton.mpr rfl), answered a ha⟩
    · exact hkept job hold
  | @finished i t log o held =>
    intro job hjob
    rcases mem_work_setWorker (r := r) hjob with hnew | hold
    · rw [work_afterwards] at hnew
      cases hnew
    · exact hkept job hold
  | left service closed empty free =>
    intro job hjob
    rcases mem_work_setWorker hjob with hnew | hold
    · cases hnew
    · exact hkept job hold

theorem mem_completed {t : PairTask} :
    t ∈ r.completed ↔ ∃ x ∈ r.ended, x.outcome.isOk = true ∧ x.task = t := by
  simp [completed, and_assoc]

theorem Ledger.changes (h : r.Ledger d tasks) {mv : Move ω} (hchanges : r.Changes d mv r') :
    r'.Ledger d tasks := by
  have hplaces := hchanges.places.trans h.places
  refine ⟨hplaces, ?_, ?_, hchanges.jobs h.jobs, ?_⟩
  · rcases hchanges.counts with ⟨hended, hcountdown, -⟩ | ⟨t, log, o, -, hended, hcountdown, -⟩
    · rw [completed, hended, hcountdown]
      exact h.remaining
    · -- One more pair is done with, so that something was outstanding.
      have hlength := length_ended_le hplaces
      have hremaining := h.remaining
      rw [completed, List.length_map] at hremaining ⊢
      rw [hended, List.length_append, List.length_singleton] at hlength
      have hle := List.length_filter_le (fun x : PairResult ω => x.outcome.isOk) r.ended
      rw [hended, hcountdown, remaining_settle, length_filter_concat]
      dsimp only
      split <;> omega
  -- A crash counts as a failure unless it takes the caller away.
  · intro hunbroken
    rcases hchanges.counts with ⟨hended, hcountdown, -⟩ | ⟨t, log, o, -, hended, hcountdown, -⟩
    · rw [Recording.failed, hended, hcountdown]
      exact h.failed fun hd x hx => hunbroken hd x (hended ▸ hx)
    · have hfailed := h.failed fun hd x hx =>
        hunbroken hd x (hended ▸ List.mem_append_left _ hx)
      have ho : d = .inline → o ≠ .crash := fun hd =>
        hunbroken hd ⟨t, log, o⟩ (hended ▸ List.mem_append_right _ (List.mem_singleton.mpr rfl))
      rw [Recording.failed, List.length_map] at hfailed ⊢
      rw [hended, hcountdown, failed_settle d _ ho, length_filter_concat, hfailed]
  · intro t ht
    obtain ⟨x, hx, hok, rfl⟩ := mem_completed.mp ht
    have hkept (hx : x ∈ r.ended) : x.task.Written r'.history :=
      (h.written _ (mem_completed.mpr ⟨x, hx, hok, rfl⟩)).mono hchanges.history
    rcases hchanges.counts with ⟨hended, -⟩ | ⟨t, log, o, hjob, hended, -⟩
    · exact hkept (hended ▸ hx)
    · rw [hended, List.mem_append, List.mem_singleton] at hx
      rcases hx with hx | rfl
      · exact hkept hx
      -- A pair that has just ended well has left its mark by answers that were given.
      · have hjob := h.jobs _ hjob
        exact ((hjob.obeys.2 hok).written hjob.backed).mono hchanges.history

section Start

variable (d : Dispatcher) (m : Memory ω) (tally : Tally ω) (total : Nat) (tasks : List PairTask)

theorem workers_start {w : Worker (PairJob ω)}
    (hw : w ∈ (start d m tally total tasks).pool.workers) : w = .free := by
  cases d <;> exact List.eq_of_mem_replicate hw

theorem work_start : (start d m tally total tasks).pool.workers.flatMap Worker.work = [] := by
  rw [List.flatMap_eq_nil_iff]
  intro w hw
  rw [workers_start d m tally total tasks hw]
  rfl

theorem queue_start : (start d m tally total tasks).pool.queue = [] := by
  cases d <;> rfl

theorem Ledger.start : (start d m tally tasks.length tasks).Ledger d tasks := by
  refine ⟨?_, rfl, fun _ => rfl, ?_, nofun⟩
  · rw [Recording.places, inHand, work_start, queue_start]
    simp [Recording.start]
  · rw [work_start]
    exact nofun

end Start

theorem Ledger.run (h : r.Ledger d tasks) (moves : List (Move ω)) : (r.run d moves).Ledger d tasks :=
  run_induct (fun _ _ _ (_ : True) hchanges h => h.changes hchanges) h fun _ _ => trivial

end Recording

end RecordLinkage
