import RecordLinkage.Program

namespace RecordLinkage

def Outcome.meets {ε α : Type} (p : α → Bool) : Outcome ε α → Bool
  | .ok a => p a
  | _ => false

theorem Outcome.meets_iff {ε α : Type} {p : α → Bool} {r : Outcome ε α} :
    r.meets p = true ↔ ∃ a, r = .ok a ∧ p a = true := by
  cases r <;> simp [meets]

structure Event (ω : Type) [Weight ω] where
  before : Memory ω
  call : Call ω

def Event.after {ω : Type} [Weight ω] (x : Event ω) : Memory ω := (x.call.perform x.before).2

namespace Program

variable {ω α β : Type}

@[simp] theorem pure_bind (a : α) (f : α → Program ω β) : (pure a : Program ω α) >>= f = f a := rfl

variable [Weight ω]

@[simp] theorem run_done (r : Outcome (Error ω) α) (m : Memory ω) :
    (.done r : Program ω α).run m = (r, m) := rfl

theorem run_ask (c : Call ω) (next : c.Reply → Program ω α) (m : Memory ω) :
    (.ask c next : Program ω α).run m =
      (next (.ofExcept (c.perform m).1)).run (c.perform m).2 := rfl

theorem run_bind (p : Program ω α) (f : α → Program ω β) (m : Memory ω) :
    (p >>= f).run m =
      match p.run m with
      | (.ok a, m') => (f a).run m'
      | (.error e, m') => (.error e, m')
      | (.crash, m') => (.crash, m') := by
  induction p generalizing m with
  | done r => cases r <;> rfl
  | ask c next ih => exact ih _ _

theorem run_bind_of_ok {p : Program ω α} {m m' : Memory ω} {a : α} (h : p.run m = (.ok a, m'))
    (f : α → Program ω β) : (p >>= f).run m = (f a).run m' := by
  rw [run_bind, h]

theorem run_bind_eq_ok {p : Program ω α} {f : α → Program ω β} {m m'' : Memory ω} {b : β} :
    (p >>= f).run m = (.ok b, m'') ↔
      ∃ a m', p.run m = (.ok a, m') ∧ (f a).run m' = (.ok b, m'') := by
  constructor
  · intro h
    rw [run_bind] at h
    rcases hp : p.run m with ⟨_ | _ | _, m'⟩
    · rw [hp] at h
      exact ⟨_, m', rfl, h⟩
    · rw [hp] at h
      cases h
    · rw [hp] at h
      cases h
  · rintro ⟨a, m', hp, h⟩
    rw [run_bind_of_ok hp, h]

/-- A sequence keeps what its first part keeps, and what follows keeps where that has ended well. -/
theorem run_bind_keeps {I : Memory ω → Prop} {p : Program ω α} {f : α → Program ω β} {m : Memory ω}
    (hp : I (p.run m).2) (hf : ∀ a m', p.run m = (.ok a, m') → I m' → I ((f a).run m').2) :
    I ((p >>= f).run m).2 := by
  rw [run_bind]
  rcases hrun : p.run m with ⟨a | e | _, m'⟩ <;> rw [hrun] at hp
  · exact hf a m' hrun hp
  · exact hp
  · exact hp

theorem run_discard_eq_ok {p : Program ω α} {m m' : Memory ω} :
    (discard p).run m = (.ok (), m') ↔ ∃ a, p.run m = (.ok a, m') := by
  change (p >>= fun _ => pure ()).run m = _ ↔ _
  rw [run_bind_eq_ok]
  constructor
  · rintro ⟨a, m'', hp, h⟩
    cases h
    exact ⟨a, hp⟩
  · rintro ⟨a, hp⟩
    exact ⟨a, m', hp, rfl⟩

theorem run_discard_snd (p : Program ω α) (m : Memory ω) : ((discard p).run m).2 = (p.run m).2 := by
  change ((p >>= fun _ => pure ()).run m).2 = _
  rw [run_bind]
  rcases p.run m with ⟨_ | _ | _, m'⟩ <;> rfl

theorem run_ofStore (r : Except (StoreError ω) α) (m : Memory ω) :
    (ofStore r).run m = (match r with | .ok a => .ok a | .error e => .error (.store e), m) := by
  cases r <;> rfl

theorem run_forM_cons {γ : Type} (f : γ → Program ω Unit) (x : γ) (l : List γ) (m : Memory ω) :
    ((x :: l).forM f).run m = (f x >>= fun _ => l.forM f).run m := rfl

def trace : Program ω α → Memory ω → List (Event ω)
  | .done _, _ => []
  | .ask c next, m => ⟨m, c⟩ :: (next (.ofExcept (c.perform m).1)).trace (c.perform m).2

theorem trace_bind_of_ok {p : Program ω α} {m m' : Memory ω} {a : α} (h : p.run m = (.ok a, m'))
    (f : α → Program ω β) : (p >>= f).trace m = p.trace m ++ (f a).trace m' := by
  induction p generalizing m with
  | done r =>
    cases h
    rfl
  | ask c next ih => exact congrArg (List.cons _) (ih _ h)

end Program

end RecordLinkage
