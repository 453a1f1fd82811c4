import RecordLinkage.Graph.Basic
import RecordLinkage.Proofs.Sorted.Map
import RecordLinkage.Proofs.Weight.Laws

namespace RecordLinkage

namespace EdgeIndex

section Lists

variable {m : SortedMap VertexId (SortedSet VertexId)} {a b c d : VertexId}

def Lists (m : SortedMap VertexId (SortedSet VertexId)) (a b : VertexId) : Prop :=
  b ∈ (SortedMap.get? m a).getD ∅

def Tidy (m : SortedMap VertexId (SortedSet VertexId)) : Prop :=
  ∀ a s, SortedMap.get? m a = some s → ∃ b, b ∈ s

theorem lists_join : Lists (join m a b) c d ↔ c = a ∧ d = b ∨ Lists m c d := by
  rw [Lists, Lists, join]
  by_cases hc : a = c
  · subst hc
    rw [SortedMap.get?_alter_self, Option.getD_some, SortedSet.mem_insert]
    simp
  · rw [SortedMap.get?_alter_of_ne _ hc]
    constructor
    · exact .inr
    · intro h
      rcases h with ⟨rfl, -⟩ | h
      · exact absurd rfl hc
      · exact h

theorem lists_part : Lists (part m a b) c d ↔ ¬ (c = a ∧ d = b) ∧ Lists m c d := by
  rw [Lists, Lists, part]
  by_cases hc : a = c
  · subst hc
    rw [SortedMap.get?_alter_self]
    cases hs : SortedMap.get? m a with
    | none => simp
    | some s =>
      rw [Option.bind_some, Option.getD_some]
      have herase : d ∈ s.erase b ↔ ¬ (a = a ∧ d = b) ∧ d ∈ s := by
        rw [SortedSet.mem_erase, and_comm]
        simp
      rw [← herase]
      dsimp only
      split
      · -- Nothing is left in the set.
        rename_i hempty
        have hnone : ¬ d ∈ s.erase b := by
          rw [SortedBy.mem_def, List.isEmpty_iff.mp hempty]
          exact List.not_mem_nil
        simp [hnone]
      · rfl
  · rw [SortedMap.get?_alter_of_ne _ hc]
    constructor
    · intro h
      exact ⟨fun e => hc e.1.symm, h⟩
    · exact fun h => h.2

theorem Tidy.join (h : Tidy m) (a b : VertexId) : Tidy (join m a b) := by
  intro c s hs
  rw [EdgeIndex.join] at hs
  by_cases hc : a = c
  · subst hc
    rw [SortedMap.get?_alter_self] at hs
    cases hs
    exact ⟨b, SortedSet.mem_insert.mpr (.inl rfl)⟩
  · rw [SortedMap.get?_alter_of_ne _ hc] at hs
    exact h c s hs

theorem Tidy.part (h : Tidy m) (a b : VertexId) : Tidy (part m a b) := by
  intro c s hs
  rw [EdgeIndex.part] at hs
  by_cases hc : a = c
  · subst hc
    rw [SortedMap.get?_alter_self] at hs
    obtain ⟨old, -, hleft⟩ := Option.bind_eq_some_iff.mp hs
    dsimp only at hleft
    split at hleft
    · cases hleft
    · rename_i hfull
      cases hleft
      rw [SortedBy.isEmpty, List.isEmpty_iff] at hfull
      exact List.exists_mem_of_ne_nil _ hfull
  · rw [SortedMap.get?_alter_of_ne _ hc] at hs
    exact h c s hs

end Lists

variable {ω : Type} [Weight ω] {x : EdgeIndex ω} {l : Link} {w : ω}

/-- The three indexes say the same as the weights of the links. -/
structure Coherent (x : EdgeIndex ω) : Prop where
  byWeight : ∀ w l, (w, l) ∈ x.byWeight ↔ x.weight? l = some w
  outgoing : ∀ a b, Lists x.outgoing a b ↔ (x.weight? ⟨a, b⟩).isSome = true
  incoming : ∀ a b, Lists x.incoming b a ↔ (x.weight? ⟨a, b⟩).isSome = true
  outgoingTidy : Tidy x.outgoing
  incomingTidy : Tidy x.incoming

theorem Coherent.empty : (∅ : EdgeIndex ω).Coherent where
  byWeight _ _ := ⟨nofun, nofun⟩
  outgoing _ _ := ⟨nofun, nofun⟩
  incoming _ _ := ⟨nofun, nofun⟩
  outgoingTidy := nofun
  incomingTidy := nofun

theorem weight?_put (x : EdgeIndex ω) (l l' : Link) (w : ω) :
    (x.put l w).weight? l' = if l = l' then some w else x.weight? l' :=
  SortedMap.get?_put x.weights l l' w

theorem weight?_erase (x : EdgeIndex ω) (l l' : Link) :
    (x.erase l).weight? l' = if l = l' then none else x.weight? l' := by
  rw [erase]
  split
  · rename_i hnone
    split
    · rename_i hl
      rw [← hl, hnone]
    · rfl
  · exact SortedMap.get?_erase x.weights l l'

/-- A removal leaves everything as it is exactly when the link is not there. -/
theorem erase_eq_self_iff : x.erase l = x ↔ x.weight? l = none := by
  constructor
  · intro hsame
    have hgone : (x.erase l).weight? l = none := by rw [weight?_erase, if_pos rfl]
    rw [← hsame, hgone]
  · intro hnone
    rw [erase, hnone]

section Weights

variable {x : EdgeIndex ω} {l : Link} {w : ω} {Q : Link → ω → Prop}
  (h : ∀ l w, x.weight? l = some w → Q l w)
include h

theorem forall_weight?_put (hl : Q l w) : ∀ l' w', (x.put l w).weight? l' = some w' → Q l' w' := by
  intro l' w' hw'
  rw [weight?_put] at hw'
  split at hw'
  · rename_i hsame
    cases hw'
    exact hsame ▸ hl
  · exact h l' w' hw'

theorem forall_weight?_erase : ∀ l' w', (x.erase l).weight? l' = some w' → Q l' w' := by
  intro l' w' hw'
  rw [weight?_erase] at hw'
  split at hw'
  · cases hw'
  · exact h l' w' hw'

end Weights

theorem isSome_weight?_put : ((x.put l w).weight? ⟨a, b⟩).isSome = true ↔
    a = l.src ∧ b = l.dst ∨ (x.weight? ⟨a, b⟩).isSome = true := by
  rw [weight?_put]
  split
  · rename_i hl
    simp [hl]
  · rename_i hl
    constructor
    · exact .inr
    · intro h
      rcases h with ⟨rfl, rfl⟩ | h
      · exact absurd rfl hl
      · exact h

theorem isSome_weight?_erase : ((x.erase l).weight? ⟨a, b⟩).isSome = true ↔
    ¬ (a = l.src ∧ b = l.dst) ∧ (x.weight? ⟨a, b⟩).isSome = true := by
  rw [weight?_erase]
  split
  · rename_i hl
    simp [hl]
  · rename_i hl
    constructor
    · intro h
      refine ⟨fun hends => hl ?_, h⟩
      obtain ⟨rfl, rfl⟩ := hends
      rfl
    · exact fun h => h.2

theorem Coherent.put (h : x.Coherent) (l : Link) (w : ω) : (x.put l w).Coherent where
  byWeight w' l' := by
    -- The old entry of the link gives way, whatever its weight was.
    have hunweigh : (w', l') ∈ unweigh x.byWeight l (x.weight? l) ↔
        l ≠ l' ∧ x.weight? l' = some w' := by
      cases hold : x.weight? l with
      | some old =>
        rw [unweigh, SortedSet.mem_erase, h.byWeight]
        constructor
        · intro hw
          refine ⟨fun hl => hw.2 ?_, hw.1⟩
          subst hl
          rw [hold, Option.some.injEq] at hw
          rw [hw.1]
        · intro hw
          exact ⟨hw.2, fun hp => hw.1 (congrArg Prod.snd hp).symm⟩
      | none =>
        rw [unweigh, h.byWeight]
        constructor
        · intro hw
          refine ⟨fun hl => ?_, hw⟩
          rw [← hl, hold] at hw
          cases hw
        · exact fun hw => hw.2
    rw [weight?_put]
    show (w', l') ∈ (unweigh x.byWeight l (x.weight? l)).insert (w, l) ↔ _
    rw [SortedSet.mem_insert, hunweigh]
    by_cases hl : l = l'
    · rw [if_pos hl]
      simp [hl, eq_comm]
    · rw [if_neg hl]
      simp [hl, Ne.symm hl]
  outgoing a b := by
    rw [isSome_weight?_put]
    exact lists_join.trans (or_congr_right (h.outgoing a b))
  incoming a b := by
    rw [isSome_weight?_put, and_comm]
    exact lists_join.trans (or_congr_right (h.incoming a b))
  outgoingTidy := h.outgoingTidy.join _ _
  incomingTidy := h.incomingTidy.join _ _

theorem Coherent.erase (h : x.Coherent) (l : Link) : (x.erase l).Coherent := by
  -- Without the link nothing is removed.
  cases hl : x.weight? l with
  | none =>
    rw [erase_eq_self_iff.mpr hl]
    exact h
  | some old =>
    have herase : x.erase l =
        { weights := x.weights.erase l
          byWeight := x.byWeight.erase (old, l)
          outgoing := part x.outgoing l.src l.dst
          incoming := part x.incoming l.dst l.src } := by
      rw [EdgeIndex.erase, hl]
    constructor
    · intro w' l'
      rw [weight?_erase, herase]
      show (w', l') ∈ x.byWeight.erase (old, l) ↔ _
      rw [SortedSet.mem_erase, h.byWeight]
      by_cases hll : l = l'
      · subst hll
        rw [hl, if_pos rfl]
        constructor
        · intro hw
          obtain ⟨hw, hne⟩ := hw
          cases hw
          exact absurd rfl hne
        · exact nofun
      · rw [if_neg hll]
        constructor
        · exact fun hw => hw.1
        · intro hw
          exact ⟨hw, fun hp => hll (congrArg Prod.snd hp).symm⟩
    · intro a b
      rw [isSome_weight?_erase, herase]
      exact lists_part.trans (and_congr_right fun _ => h.outgoing a b)
    · intro a b
      rw [isSome_weight?_erase, herase, and_comm (a := a = l.src)]
      exact lists_part.trans (and_congr_right fun _ => h.incoming a b)
    · rw [herase]
      exact h.outgoingTidy.part _ _
    · rw [herase]
      exact h.incomingTidy.part _ _

theorem Coherent.byWeight_perm (h : x.Coherent) :
    x.byWeight.toList.Perm (x.weights.toList.map Prod.swap) := by
  have hindex : x.byWeight.toList.Nodup := x.byWeight.keys_distinct
  have hentries : (x.weights.toList.map Prod.swap).Nodup :=
    List.pairwise_map.mpr
      (x.weights.keys_distinct.imp fun hne heq => hne (congrArg Prod.snd heq))
  rw [List.perm_ext_iff_of_nodup hindex hentries]
  rintro ⟨w, l⟩
  rw [← SortedBy.mem_def, h.byWeight, List.mem_map]
  constructor
  · exact fun hw => ⟨(l, w), SortedMap.mem_toList.mpr hw, rfl⟩
  · rintro ⟨p, hp, heq⟩
    cases heq
    exact SortedMap.mem_toList.mp hp

/-- The lightest link comes first among all links, by weight and then by its ends. -/
theorem Coherent.lightest (h : x.Coherent) (hl : x.lightest? = some (w, l)) :
    x.weight? l = some w ∧
      ∀ l' w', x.weight? l' = some w' → (w', l') = (w, l) ∨ compare (w, l) (w', l') = .lt := by
  obtain ⟨rest, hrest⟩ := List.head?_eq_some_iff.mp hl
  constructor
  · apply (h.byWeight w l).mp
    rw [SortedBy.mem_def, hrest]
    exact List.mem_cons_self
  · intro l' w' hw'
    have hmem := (h.byWeight w' l').mpr hw'
    have hascending := x.byWeight.ascending
    rw [SortedBy.mem_def, hrest] at hmem
    rw [hrest, List.pairwise_cons] at hascending
    rcases List.mem_cons.mp hmem with hp | hp
    · exact .inl hp
    · exact .inr (hascending.1 _ hp)

theorem Coherent.lightest_none (h : x.Coherent) (hl : x.lightest? = none) (l : Link) :
    x.weight? l = none := by
  cases hw : x.weight? l with
  | none => rfl
  | some w =>
    have hmem := (h.byWeight w l).mpr hw
    rw [SortedBy.mem_def, List.head?_eq_none_iff.mp hl] at hmem
    cases hmem

theorem Coherent.le_of_lightest [LawfulWeight ω] (h : x.Coherent) {l' : Link} {w' : ω}
    (hl : x.lightest? = some (w, l)) (hw' : x.weight? l' = some w') : Weight.le w w' := by
  rcases (h.lightest hl).2 l' w' hw' with heq | hlt
  · cases heq
    exact Weight.le_refl _
  · apply Weight.le_of_compare
    intro hgt
    have hpair : compare (w', l') (w, l) = .lt := by
      show (compare w' w).then _ = _
      rw [SortKey.lt_of_gt hgt]
      rfl
    rw [SortKey.lt_asymm hpair] at hlt
    cases hlt

end EdgeIndex

end RecordLinkage
