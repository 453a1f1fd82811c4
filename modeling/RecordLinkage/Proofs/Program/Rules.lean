import RecordLinkage.Proofs.Program.Run

namespace RecordLinkage

/-- Rules for the calls of a procedure: which calls a stage allows, and the stage that a reply leads
to. -/
structure Rules (ω σ : Type) where
  allows : σ → Call ω → Prop
  next : σ → (c : Call ω) → c.Reply → σ

namespace Program

variable {ω σ α β : Type}

/-- Whatever it is replied, a procedure makes allowed calls only, and it ends as it should. -/
def Obeys (R : Rules ω σ) (ends : σ → Outcome (Error ω) α → Prop) : Program ω α → σ → Prop
  | .done r, s => ends s r
  | .ask c next, s => R.allows s c ∧ ∀ r, (next r).Obeys R ends (R.next s c r)

def Only (P : Call ω → Prop) : Program ω α → Prop
  | .done _ => True
  | .ask c next => P c ∧ ∀ r, (next r).Only P

/-- As long as no call crashes, a procedure ends in one of certain ways. -/
def Ends (Q : Outcome (Error ω) α → Prop) : Program ω α → Prop
  | .done r => Q r
  | .ask _ next => ∀ r, (next (.ofExcept r)).Ends Q

section Obeys

variable {R : Rules ω σ} {ends ends' : σ → Outcome (Error ω) α → Prop} {s : σ}

theorem Obeys.mono {p : Program ω α} (hp : p.Obeys R ends s) (h : ∀ s r, ends s r → ends' s r) :
    p.Obeys R ends' s := by
  induction p generalizing s with
  | done r => exact h s r hp
  | ask c next ih => exact ⟨hp.1, fun r => ih r (hp.2 r)⟩

theorem Obeys.bind {p : Program ω α} {f : α → Program ω β}
    {goal : σ → Outcome (Error ω) β → Prop} (hp : p.Obeys R ends s)
    (hok : ∀ s a, ends s (.ok a) → (f a).Obeys R goal s)
    (herror : ∀ s e, ends s (.error e) → goal s (.error e))
    (hcrash : ∀ s, ends s .crash → goal s .crash) : (p >>= f).Obeys R goal s := by
  induction p generalizing s with
  | done r =>
    cases r with
    | ok a => exact hok s a hp
    | error e => exact herror s e hp
    | crash => exact hcrash s hp
  | ask c next ih => exact ⟨hp.1, fun r => ih r (hp.2 r)⟩

/-- Calls that the rules never mind leave a procedure in its stage. -/
theorem Only.obeys {P : Call ω → Prop} {p : Program ω α} (hp : p.Only P)
    (hP : ∀ s c, P c → R.allows s c ∧ ∀ r, R.next s c r = s) (s : σ) :
    p.Obeys R (fun s' _ => s' = s) s := by
  induction p with
  | done r => exact rfl
  | ask c next ih =>
    refine ⟨(hP s c hp.1).1, fun r => ?_⟩
    rw [(hP s c hp.1).2 r]
    exact ih r (hp.2 r)

end Obeys

section Only

variable {P Q : Call ω → Prop}

theorem Only.mono {p : Program ω α} (hp : p.Only P) (h : ∀ c, P c → Q c) : p.Only Q := by
  induction p with
  | done r => trivial
  | ask c next ih => exact ⟨h c hp.1, fun r => ih r (hp.2 r)⟩

theorem only_done (r : Outcome (Error ω) α) : (.done r : Program ω α).Only P := trivial

theorem only_call {c : Call ω} (h : P c) : (call c).Only P := ⟨h, fun _ => trivial⟩

theorem Only.bind {p : Program ω α} {f : α → Program ω β} (hp : p.Only P)
    (hf : ∀ a, (f a).Only P) : (p >>= f).Only P := by
  induction p with
  | done r =>
    cases r with
    | ok a => exact hf a
    | error e => trivial
    | crash => trivial
  | ask c next ih => exact ⟨hp.1, fun r => ih r (hp.2 r)⟩

theorem Only.discard {p : Program ω α} (hp : p.Only P) : (discard p).Only P :=
  hp.bind fun _ => only_done _

theorem Only.attempt {p : Program ω α} (hp : p.Only P) : p.attempt.Only P := by
  induction p with
  | done r => trivial
  | ask c next ih => exact ⟨hp.1, fun r => ih r (hp.2 r)⟩

theorem only_forM {γ : Type} {f : γ → Program ω Unit} {l : List γ} (h : ∀ x ∈ l, (f x).Only P) :
    (l.forM f).Only P := by
  induction l with
  | nil => trivial
  | cons x l ih =>
    rw [List.forall_mem_cons] at h
    exact h.1.bind fun _ => ih h.2

end Only

section Ends

variable {Q : Outcome (Error ω) α → Prop} {Q' : Outcome (Error ω) β → Prop}

theorem Ends.bind {p : Program ω α} {f : α → Program ω β} (hp : p.Ends Q)
    (hok : ∀ a, Q (.ok a) → (f a).Ends Q') (herror : ∀ e, Q (.error e) → Q' (.error e))
    (hcrash : Q .crash → Q' .crash) : (p >>= f).Ends Q' := by
  induction p with
  | done r =>
    cases r with
    | ok a => exact hok a hp
    | error e => exact herror e hp
    | crash => exact hcrash hp
  | ask c next ih => exact fun r => ih _ (hp r)

def FailsInStore (r : Outcome (Error ω) α) : Prop :=
  (∃ a, r = .ok a) ∨ ∃ cause, r = .error (.store cause)

theorem ends_call (c : Call ω) : (call c).Ends FailsInStore := by
  intro r
  cases r with
  | ok a => exact .inl ⟨a, rfl⟩
  | error cause => exact .inr ⟨cause, rfl⟩

theorem ends_ofStore (r : Except (StoreError ω) α) : (ofStore r).Ends FailsInStore := by
  cases r with
  | ok a => exact .inl ⟨a, rfl⟩
  | error cause => exact .inr ⟨cause, rfl⟩

theorem ends_pure (a : α) : (pure a : Program ω α).Ends FailsInStore := .inl ⟨a, rfl⟩

theorem Ends.then {p : Program ω α} {f : α → Program ω β} (hp : p.Ends FailsInStore)
    (hf : ∀ a, (f a).Ends FailsInStore) : (p >>= f).Ends FailsInStore := by
  apply hp.bind (fun a _ => hf a)
  · intro e h
    rcases h with ⟨a, h⟩ | ⟨cause, h⟩
    · cases h
    · cases h
      exact .inr ⟨cause, rfl⟩
  · intro h
    rcases h with ⟨a, h⟩ | ⟨cause, h⟩ <;> cases h

theorem Ends.discard {p : Program ω α} (hp : p.Ends FailsInStore) :
    (discard p).Ends FailsInStore := hp.then fun _ => ends_pure ()

theorem ends_forM {γ : Type} {f : γ → Program ω Unit} (h : ∀ x, (f x).Ends FailsInStore)
    (l : List γ) : (l.forM f).Ends FailsInStore := by
  induction l with
  | nil => exact ends_pure ()
  | cons x l ih => exact (h x).then fun _ => ih

end Ends

variable [Weight ω]

theorem Ends.run {Q : Outcome (Error ω) α → Prop} {p : Program ω α} (hp : p.Ends Q)
    (m : Memory ω) : Q (p.run m).1 := by
  induction p generalizing m with
  | done r => exact hp
  | ask c next ih => exact ih _ (hp _) _

theorem Only.of_mem_trace {P : Call ω → Prop} {p : Program ω α} (hp : p.Only P) {m : Memory ω}
    {x : Event ω} (hx : x ∈ p.trace m) : P x.call := by
  induction p generalizing m with
  | done r => cases hx
  | ask c next ih =>
    rcases List.mem_cons.mp hx with rfl | hx
    · exact hp.1
    · exact ih _ (hp.2 _) hx

/-- What calls of one sort preserve holds after a run that makes no others. -/
theorem Only.run {P : Call ω → Prop} {I : List (Event ω) → Memory ω → Prop}
    (step : ∀ h c m, P c → I h m → I (h ++ [⟨m, c⟩]) (c.perform m).2)
    {p : Program ω α} (hp : p.Only P) {h : List (Event ω)} {m : Memory ω} (hI : I h m) :
    I (h ++ p.trace m) (p.run m).2 := by
  induction p generalizing h m with
  | done r => simpa [trace] using hI
  | ask c next ih =>
    have hI' := ih _ (hp.2 (.ofExcept (c.perform m).1)) (step h c m hp.1 hI)
    rw [List.append_assoc] at hI'
    exact hI'

end Program

end RecordLinkage
