import RecordLinkage.Proofs.Amid.Turns
import RecordLinkage.Proofs.Program.Run

namespace RecordLinkage

variable {ω α β : Type} [Weight ω]

/-- Calls that a store in memory never refuses, and that put no edge. -/
def Call.Sure : Call ω → Prop
  | .merge _ _ _ | .putEdge _ _ => False
  | _ => True

theorem Call.Sure.perform {c : Call ω} (h : c.Sure) (m : Memory ω) :
    ∃ a, (c.perform m).1 = .ok a := by
  cases c with
  | merge | putEdge => cases h
  | _ => exact ⟨_, rfl⟩

namespace Memory

variable {m : Memory ω} {g : GraphId} {H h h₁ : List (Turn ω)} {c : Call ω}

/-- After the turns `h` others have acted, who keep the graph `g` in use, and now the procedure makes
the call `c`. All of this is a part of `H`. -/
structure Calls (m : Memory ω) (g : GraphId) (H h : List (Turn ω)) (c : Call ω)
    (h₁ : List (Turn ω)) : Prop where
  others : ∃ rs : List (Request ω), h₁ = h ++ rs.map .other
  inUse : m.InUse g h₁
  within : h₁ ++ [.own c] <+: H

namespace Calls

theorem before (hcall : m.Calls g H h c h₁) : h <+: h₁ := by
  obtain ⟨rs, rfl⟩ := hcall.others
  exact List.prefix_append h _

theorem after (hcall : m.Calls g H h c h₁) : h <+: h₁ ++ [.own c] :=
  hcall.before.trans (List.prefix_append h₁ _)

theorem made (hcall : m.Calls g H h c h₁) : m.Made H (m.afterTurns h₁) c :=
  ⟨h₁, hcall.within, rfl⟩

theorem made_iff (hcall : m.Calls g H h c h₁) {m' : Memory ω} {c' : Call ω} :
    m.Made (h₁ ++ [.own c]) m' c' ↔ m.Made h m' c' ∨ c' = c ∧ m' = m.afterTurns h₁ := by
  obtain ⟨rs, rfl⟩ := hcall.others
  rw [made_own]
  exact or_congr_left ⟨made_others, fun hmade => hmade.mono hcall.before⟩

end Calls

end Memory

namespace Program

/-- Amid others who keep the graph `g` in use, a procedure that goes on after the turns `h` keeps it
in use as well, and ends with a value as stated. -/
def Withstands (m : Memory ω) (g : GraphId) (H : List (Turn ω)) (Q : List (Turn ω) → α → Prop) :
    Program ω α → List (Turn ω) → Prop
  | .done r, h => ∃ a, r = .ok a ∧ Q h a
  | .ask c next, h => ∀ h₁, m.Calls g H h c h₁ →
      m.InUse g (h₁ ++ [.own c]) ∧
        (next (.ofExcept (c.perform (m.afterTurns h₁)).1)).Withstands m g H Q (h₁ ++ [.own c])

section Withstands

variable {m : Memory ω} {g : GraphId} {H h : List (Turn ω)} {Q : List (Turn ω) → α → Prop}

theorem withstands_pure {a : α} (hQ : Q h a) : (pure a : Program ω α).Withstands m g H Q h :=
  ⟨a, rfl, hQ⟩

theorem Withstands.bind {p : Program ω α} {f : α → Program ω β} {Q' : List (Turn ω) → β → Prop}
    (hp : p.Withstands m g H Q h)
    (hf : ∀ h' a, h <+: h' → Q h' a → (f a).Withstands m g H Q' h') :
    (p >>= f).Withstands m g H Q' h := by
  induction p generalizing h with
  | done r =>
    obtain ⟨a, rfl, hQ⟩ := hp
    exact hf h a List.prefix_rfl hQ
  | ask c next ih =>
    intro h₁ hcall
    obtain ⟨huse, hnext⟩ := hp h₁ hcall
    exact ⟨huse, ih _ hnext fun h' a hgrown => hf h' a (hcall.after.trans hgrown)⟩

theorem withstands_call {c : Call ω} {Q : List (Turn ω) → c.Answer → Prop}
    (hcall : ∀ h₁, m.Calls g H h c h₁ → m.InUse g (h₁ ++ [.own c]) ∧
      ∃ a, (c.perform (m.afterTurns h₁)).1 = .ok a ∧ Q (h₁ ++ [.own c]) a) :
    (call c).Withstands m g H Q h := by
  intro h₁ hcomes
  obtain ⟨huse, a, ha, hQ⟩ := hcall h₁ hcomes
  refine ⟨huse, a, ?_, hQ⟩
  rw [ha]
  rfl

/-- The answer of a call that is not refused is that of the store as the others have left it. -/
theorem withstands_sure {c : Call ω} (hsure : c.Sure) :
    (call c).Withstands m g H (fun h' a => ∃ h₁, m.Calls g H h c h₁ ∧ h' = h₁ ++ [.own c] ∧
      (c.perform (m.afterTurns h₁)).1 = .ok a) h := by
  apply withstands_call
  intro h₁ hcall
  obtain ⟨a, ha⟩ := hsure.perform (m.afterTurns h₁)
  refine ⟨hcall.inUse.own fun l w hc => ?_, a, ha, h₁, hcall, rfl, ha⟩
  rw [hc] at hsure
  cases hsure

theorem withstands_discard {c : Call ω} (hsure : c.Sure) :
    (discard (call c)).Withstands m g H
      (fun h' _ => ∃ h₁, m.Calls g H h c h₁ ∧ h' = h₁ ++ [.own c]) h := by
  refine (withstands_sure hsure).bind fun h' a _ hanswer => withstands_pure ?_
  obtain ⟨h₁, hcall, hlast, -⟩ := hanswer
  exact ⟨h₁, hcall, hlast⟩

/-- What holds of a course of turns and is not lost later carries a procedure through a list. -/
theorem withstands_forM {γ : Type} {f : γ → Program ω Unit} {l : List γ}
    (hf : ∀ x ∈ l, ∀ h', h <+: h' → (f x).Withstands m g H (fun _ _ => True) h') :
    (l.forM f).Withstands m g H (fun _ _ => True) h := by
  induction l generalizing h with
  | nil => exact withstands_pure trivial
  | cons x l ih =>
    obtain ⟨hx, hl⟩ := List.forall_mem_cons.mp hf
    refine (hx h List.prefix_rfl).bind fun h' _ hgrown _ => ih fun y hy h'' hlater => ?_
    exact hl y hy h'' (hgrown.trans hlater)

theorem inUse_others {rs : List (Request ω)} (huse : m.InUse g h)
    (hkeep : ∀ h₁ r, h <+: h₁ → h₁ ++ [.other r] <+: h ++ rs.map .other → m.InUse g h₁ →
      m.InUse g (h₁ ++ [.other r])) : m.InUse g (h ++ rs.map .other) := by
  induction rs generalizing h with
  | nil => simpa using huse
  | cons r rs ih =>
    have hsplit : h ++ (r :: rs).map .other = h ++ [.other r] ++ rs.map .other := by simp
    rw [hsplit] at hkeep ⊢
    have hgrown : h <+: h ++ [.other r] := List.prefix_append h _
    refine ih (hkeep h r List.prefix_rfl (List.prefix_append _ _) huse) ?_
    exact fun h₁ r' hearly => hkeep h₁ r' (hgrown.trans hearly)

/-- Amid actual others who keep the graph in use, the procedure succeeds. -/
theorem Withstands.amid {p : Program ω α} {others : Nat → List (Request ω)} {n : Nat}
    (hp : p.Withstands m g H Q h) (huse : m.InUse g h)
    (hH : h ++ (p.amid others n (m.afterTurns h)).2 = H)
    (hkeep : ∀ h₁ r, h <+: h₁ → h₁ ++ [.other r] <+: H → m.InUse g h₁ →
      m.InUse g (h₁ ++ [.other r])) :
    ∃ a, (p.amid others n (m.afterTurns h)).1 = .ok a ∧ Q H a := by
  -- Others act before every call; after it the rest of the procedure is amid those who come later.
  induction p generalizing h n with
  | done r =>
    obtain ⟨a, rfl, hQ⟩ := hp
    rw [Program.amid, List.append_nil] at hH
    exact ⟨a, rfl, hH ▸ hQ⟩
  | ask c next ih =>
    have hothers : Request.run (m.afterTurns h) (others n) =
        m.afterTurns (h ++ (others n).map .other) := by
      rw [Memory.afterTurns_append, Memory.afterTurns_others]
    have hsplit : h ++ ((Program.ask c next).amid others n (m.afterTurns h)).2 =
        h ++ (others n).map .other ++ [.own c] ++
          ((next (.ofExcept (c.perform (m.afterTurns (h ++ (others n).map .other))).1)).amid others
            (n + 1) (m.afterTurns (h ++ (others n).map .other ++ [.own c]))).2 := by
      rw [Program.amid, Memory.afterTurns_own, hothers]
      simp
    rw [hsplit] at hH
    have hwithin : h ++ (others n).map .other ++ [.own c] <+: H := ⟨_, hH⟩
    have hbefore : h ++ (others n).map .other <+: H := (List.prefix_append _ _).trans hwithin
    have hcall : m.Calls g H h c (h ++ (others n).map .other) :=
      ⟨⟨_, rfl⟩, inUse_others huse fun h₁ r hearly hlate => hkeep h₁ r hearly (hlate.trans hbefore),
        hwithin⟩
    obtain ⟨huse', hnext⟩ := hp _ hcall
    obtain ⟨a, ha, hQ⟩ :=
      ih _ hnext huse' hH fun h₁ r hearly => hkeep h₁ r (hcall.after.trans hearly)
    refine ⟨a, ?_, hQ⟩
    rw [Program.amid, hothers]
    rw [Memory.afterTurns_own] at ha
    exact ha

end Withstands

end Program

end RecordLinkage
