import RecordLinkage.Uuid.Text
import Mathlib.Data.List.Induction
import Mathlib.Tactic.SplitIfs

namespace RecordLinkage

namespace Hex

variable {c : Char} {cs : List Char} {d n count : Nat}

theorem toNat_digit : ∀ d < 16, (digit d).toNat = if d < 10 then 48 + d else 87 + d := by decide

theorem toNat_toLower (c : Char) :
    c.toLower.toNat = if 65 ≤ c.toNat ∧ c.toNat ≤ 90 then c.toNat + 32 else c.toNat := by
  have hcapital : (c.val ≥ 'A'.val ∧ c.val ≤ 'Z'.val) ↔ 65 ≤ c.toNat ∧ c.toNat ≤ 90 :=
    and_congr UInt32.le_iff_toNat_le UInt32.le_iff_toNat_le
  by_cases h : 65 ≤ c.toNat ∧ c.toNat ≤ 90
  · have hlower : c.toLower.val = c.val + ('a'.val - 'A'.val) :=
      congrArg Char.val (dif_pos (hcapital.mpr h))
    have hc : c.val.toNat ≤ 90 := h.2
    rw [if_pos h, Char.toNat, hlower, UInt32.toNat_add,
      show ('a'.val - 'A'.val).toNat = 32 from rfl, Char.toNat]
    omega
  · have hkept : c.toLower = c := dif_neg (hcapital.not.mpr h)
    rw [hkept, if_neg h]

theorem value?_eq_some : value? c = some d ↔ d < 16 ∧ c.toLower = digit d := by
  by_cases hd : d < 16
  · rw [← Char.toNat_inj, toNat_toLower, toNat_digit d hd, value?]
    simp only [hd, true_and]
    split_ifs <;> simp only [Option.some.injEq, false_iff] <;> omega
  · refine iff_of_false (fun h => hd ?_) fun h => hd h.1
    rw [value?] at h
    split_ifs at h <;> cases h <;> omega

theorem digits_succ (count n : Nat) :
    digits (count + 1) n = digits count (n / 16) ++ [digit (n % 16)] := by
  rw [digits, digits, List.range_succ, List.map_append]
  congr 1
  · apply List.map_congr_left
    intro i hi
    have hpow : count + 1 - 1 - i = count - 1 - i + 1 := by
      have := List.mem_range.mp hi
      omega
    rw [hpow, Nat.pow_eq, Nat.pow_eq, Nat.pow_succ, Nat.mul_comm, Nat.div_div_eq_div_mul]
  · simp

@[simp] theorem length_digits (count n : Nat) : (digits count n).length = count := by
  rw [digits, List.length_map, List.length_range]

theorem number?_concat (cs : List Char) (c : Char) :
    number? 16 (cs ++ [c]) = (number? 16 cs).bind fun n => (value? c).map fun d => 16 * n + d := by
  rw [number?, number?, List.foldlM_append]
  cases List.foldlM (fun n c => (value? c).map fun d => 16 * n + d) 0 cs with
  | none => rfl
  | some n =>
    simp

theorem map_toLower_digits (count n : Nat) :
    (digits count n).map Char.toLower = digits count n := by
  have hdigit : ∀ d < 16, (digit d).toLower = digit d := by decide
  rw [digits, List.map_map]
  exact List.map_congr_left fun i _ => hdigit _ (Nat.mod_lt _ (by decide))

/-- Reading undoes writing, in small letters or not, and nothing else is read. -/
theorem number?_eq_some : number? 16 cs = some n ↔
    n < Nat.pow 16 cs.length ∧ cs.map Char.toLower = digits cs.length n := by
  induction cs using List.reverseRecOn generalizing n with
  | nil =>
    simp [number?, digits, eq_comm]
  | append_singleton cs c ih =>
    have hpow : Nat.pow 16 (cs.length + 1) = Nat.pow 16 cs.length * 16 := rfl
    rw [number?_concat, List.map_append, List.length_append, List.length_singleton, digits_succ]
    constructor
    · intro h
      obtain ⟨m, hm, h⟩ := Option.bind_eq_some_iff.mp h
      obtain ⟨d, hd, rfl⟩ := Option.map_eq_some_iff.mp h
      obtain ⟨hlt, hlower⟩ := ih.mp hm
      obtain ⟨hd, hc⟩ := value?_eq_some.mp hd
      have hquotient : (16 * m + d) / 16 = m := by omega
      have hrest : (16 * m + d) % 16 = d := by omega
      rw [hquotient, hrest, hlower, List.map_singleton, hc, hpow]
      exact ⟨by omega, rfl⟩
    · rintro ⟨hlt, hlower⟩
      obtain ⟨hinit, hlast⟩ := List.append_inj' hlower rfl
      have hm : number? 16 cs = some (n / 16) := by
        refine ih.mpr ⟨?_, hinit⟩
        rw [hpow] at hlt
        omega
      have hd : value? c = some (n % 16) :=
        value?_eq_some.mpr ⟨Nat.mod_lt n (by omega), List.singleton_inj.mp hlast⟩
      rw [hm, Option.bind_some, hd, Option.map_some, Nat.div_add_mod]

end Hex

namespace Uuid

variable {a b c d e h cs : List Char} {u : Uuid}

theorem hyphenate_append (ha : a.length = 8) (hb : b.length = 4) (hc : c.length = 4)
    (hd : d.length = 4) :
    hyphenate (a ++ b ++ c ++ d ++ e) = a ++ '-' :: b ++ '-' :: c ++ '-' :: d ++ '-' :: e := by
  simp [hyphenate, List.drop_append, List.drop_of_length_le, ha, hb, hc, hd]

theorem unhyphenate?_append (ha : a.length = 8) (hb : b.length = 4) (hc : c.length = 4)
    (hd : d.length = 4) (he : e.length = 12) :
    unhyphenate? (a ++ '-' :: b ++ '-' :: c ++ '-' :: d ++ '-' :: e) =
      some (a ++ b ++ c ++ d ++ e) := by
  simp [unhyphenate?, List.drop_append, List.drop_of_length_le, ha, hb, hc, hd, he]

/-- A list is cut at a place where its element is known. -/
theorem take_append_cons_drop {x : Char} {n : Nat} (hx : cs[n]? = some x) :
    cs.take n ++ x :: cs.drop (n + 1) = cs := by
  obtain ⟨hn, rfl⟩ := List.getElem?_eq_some_iff.mp hx
  rw [← List.drop_eq_getElem_cons hn, List.take_append_drop]

/-- Only hyphenated lists lose their hyphens, and they get them back. -/
theorem unhyphenate?_eq_some : unhyphenate? cs = some h ↔ h.length = 32 ∧ cs = hyphenate h := by
  constructor
  · intro hcs
    rw [unhyphenate?] at hcs
    split_ifs at hcs with hform
    obtain ⟨hlength, h8, h13, h18, h23⟩ := hform
    cases hcs
    refine ⟨by simp [hlength], ?_⟩
    rw [hyphenate_append (by simp [hlength]) (by simp [hlength]) (by simp [hlength])
      (by simp [hlength])]
    have hcut {n k : Nat} (hx : cs[n + k]? = some '-') :
        (cs.drop n).take k ++ '-' :: cs.drop (n + (k + 1)) = cs.drop n := by
      rw [← List.drop_drop]
      exact take_append_cons_drop (by rw [List.getElem?_drop, hx])
    simp only [List.append_assoc, List.cons_append]
    rw [hcut h23, hcut h18, hcut h13, take_append_cons_drop h8]
  · rintro ⟨hlength, rfl⟩
    have hgroups : h = h.take 8 ++ (h.drop 8).take 4 ++ (h.drop 12).take 4 ++
        (h.drop 16).take 4 ++ h.drop 20 := by
      have hcut (n k : Nat) : (h.drop n).take k ++ h.drop (n + k) = h.drop n := by
        rw [← List.drop_drop, List.take_append_drop]
      simp only [List.append_assoc]
      rw [hcut 16 4, hcut 12 4, hcut 8 4, List.take_append_drop]
    rw [hyphenate, unhyphenate?_append (by simp [hlength]) (by simp [hlength]) (by simp [hlength])
      (by simp [hlength]) (by simp [hlength]), ← hgroups]

theorem unhyphenate?_map {f : Char → Char} (hf : ∀ c, f c = '-' ↔ c = '-') :
    unhyphenate? (cs.map f) = (unhyphenate? cs).map (List.map f) := by
  have hat (n : Nat) : (cs.map f)[n]? = some '-' ↔ cs[n]? = some '-' := by
    simp only [List.getElem?_map, Option.map_eq_some_iff, hf, exists_eq_right]
  simp only [unhyphenate?, hat, List.length_map]
  split_ifs
  · simp
  · rfl

theorem toLower_eq_iff {c c' : Char} (h : c'.toNat < 65 ∨ 122 < c'.toNat) :
    c.toLower = c' ↔ c = c' := by
  rw [← Char.toNat_inj, ← Char.toNat_inj, Hex.toNat_toLower]
  split_ifs <;> omega

theorem ofPlain?_eq_some :
    ofPlain? cs = some u ↔ cs.map Char.toLower = Hex.digits 32 u.bits.toNat := by
  rw [ofPlain?]
  split_ifs with hlength
  · rw [Option.map_eq_some_iff]
    simp only [Hex.number?_eq_some, hlength]
    constructor
    · rintro ⟨n, ⟨hn, hcs⟩, rfl⟩
      have hbits : (BitVec.ofNat 128 n).toNat = n := Nat.mod_eq_of_lt hn
      rw [hcs, hbits]
    · intro hcs
      exact ⟨u.bits.toNat, ⟨u.bits.isLt, hcs⟩, by rw [BitVec.ofNat_toNat, BitVec.setWidth_eq]⟩
  · refine iff_of_false (by simp) fun hcs => hlength ?_
    rw [← List.length_map, hcs, Hex.length_digits]

theorem ofHyphenated?_eq_some : ofHyphenated? cs = some u ↔ cs.map Char.toLower = u.chars := by
  have hlower : unhyphenate? (cs.map Char.toLower) = (unhyphenate? cs).map (List.map Char.toLower) :=
    unhyphenate?_map fun c => toLower_eq_iff (.inl (by decide))
  calc ofHyphenated? cs = some u
      ↔ unhyphenate? (cs.map Char.toLower) = some (Hex.digits 32 u.bits.toNat) := by
        rw [ofHyphenated?, Option.bind_eq_some_iff, hlower, Option.map_eq_some_iff]
        simp only [ofPlain?_eq_some]
    _ ↔ cs.map Char.toLower = u.chars := by
        rw [unhyphenate?_eq_some, Hex.length_digits]
        exact and_iff_right rfl

/-- The ways to spell an identifier, in small letters: plain digits, the hyphenated form, that form
in braces, and that form after `urn:uuid:`. -/
def spellings (u : Uuid) : List (List Char) :=
  [Hex.digits 32 u.bits.toNat, u.chars, '{' :: u.chars ++ ['}'],
    ['u', 'r', 'n', ':', 'u', 'u', 'i', 'd', ':'] ++ u.chars]

@[simp] theorem length_chars (u : Uuid) : u.chars.length = 36 := by
  simp [chars, hyphenate]

theorem chars_hyphen (u : Uuid) : u.chars[8]? = some '-' := by
  simp [chars, hyphenate]

theorem map_toLower_eq_braces : cs.map Char.toLower = '{' :: h ++ ['}'] ↔
    ∃ m : List Char, cs = '{' :: m ++ ['}'] ∧ m.map Char.toLower = h := by
  constructor
  · intro hcs
    obtain ⟨l, close, rfl, hl, hclose⟩ := List.map_eq_append_iff.mp hcs
    obtain ⟨x, m, rfl, hx, hm⟩ := List.map_eq_cons_iff.mp hl
    obtain ⟨y, rfl, hy⟩ := List.map_eq_singleton_iff.mp hclose
    rw [(toLower_eq_iff (.inr (by decide))).mp hx, (toLower_eq_iff (.inr (by decide))).mp hy]
    exact ⟨m, rfl, hm⟩
  · rintro ⟨m, rfl, rfl⟩
    simp

theorem exists_braces (hlength : cs.length = 38) (hhead : cs.head? = some '{')
    (hlast : cs.getLast? = some '}') : cs = '{' :: (cs.drop 1).dropLast ++ ['}'] := by
  obtain ⟨rest, rfl⟩ := List.head?_eq_some_iff.mp hhead
  have hrest : rest ≠ [] := by
    rintro rfl
    cases hlength
  rw [List.getLast?_cons_of_ne_nil hrest] at hlast
  obtain ⟨m, rfl⟩ := List.getLast?_eq_some_iff.mp hlast
  simp

/-- Characters are read as an identifier exactly if they are one of its spellings, in letters of
either case. -/
theorem ofChars?_eq_some : ofChars? cs = some u ↔ cs.map Char.toLower ∈ u.spellings := by
  have hlength {l : List Char} (h : cs.map Char.toLower = l) : cs.length = l.length := by
    rw [← h, List.length_map]
  rw [ofChars?]
  simp only [spellings, List.mem_cons, List.not_mem_nil, or_false]
  -- The spellings differ in length, so at most one of them can match.
  split_ifs with h32 hbraces hurn
  · rw [ofPlain?_eq_some]
    refine ⟨.inl, ?_⟩
    rintro (h | h | h | h)
    · exact h
    all_goals
      have := hlength h
      simp [h32] at this
  · obtain ⟨h38, hhead, hlast⟩ := hbraces
    have hcs := exists_braces h38 hhead hlast
    rw [ofHyphenated?_eq_some]
    constructor
    · intro h
      exact .inr (.inr (.inl (map_toLower_eq_braces.mpr ⟨_, hcs, h⟩)))
    · rintro (h | h | h | h)
      · exact absurd (hlength h) (by simp [h38])
      · exact absurd (hlength h) (by simp [h38])
      · obtain ⟨m, rfl, hm⟩ := map_toLower_eq_braces.mp h
        simpa using hm
      · exact absurd (hlength h) (by simp [h38])
  · have hcs : cs.map Char.toLower =
        ['u', 'r', 'n', ':', 'u', 'u', 'i', 'd', ':'] ++ (cs.drop 9).map Char.toLower := by
      rw [← hurn, ← List.map_append, List.take_append_drop]
    rw [ofHyphenated?_eq_some, hcs]
    constructor
    · intro h
      exact .inr (.inr (.inr (by rw [h])))
    · rintro (h | h | h | h)
      · exact absurd (hlength (hcs.trans h)) (by simpa using h32)
      · -- The ninth character is a colon, and not a hyphen.
        have hnine := chars_hyphen u
        rw [← h] at hnine
        cases hnine
      · cases h
      · exact List.append_cancel_left h
  · rw [ofHyphenated?_eq_some]
    refine ⟨fun h => .inr (.inl h), ?_⟩
    rintro (h | h | h | h)
    · exact absurd (hlength h) (by simpa using h32)
    · exact h
    · obtain ⟨m, rfl, hm⟩ := map_toLower_eq_braces.mp h
      exact absurd ⟨(hlength h).trans (by simp), rfl, List.getLast?_concat⟩ hbraces
    · refine absurd ?_ hurn
      rw [List.map_take, h]
      rfl

theorem map_toLower_chars (u : Uuid) : u.chars.map Char.toLower = u.chars := by
  have hhyphen : '-'.toLower = '-' := rfl
  simp only [chars, hyphenate, List.map_append, List.map_cons, List.map_take, List.map_drop,
    hhyphen, Hex.map_toLower_digits]

/-- An identifier is read from its own text. -/
@[simp] theorem ofText?_text (u : Uuid) : ofText? u.text = some u := by
  rw [ofText?, text, String.toList_ofList, ofChars?_eq_some, map_toLower_chars]
  simp [spellings]

end Uuid

end RecordLinkage
