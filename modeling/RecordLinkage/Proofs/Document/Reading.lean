import RecordLinkage.Document.Types
import RecordLinkage.Proofs.Document.Format
import RecordLinkage.Proofs.Sorted.Ext
import Mathlib.Data.Set.List

namespace RecordLinkage

theorem mapM_eq_some_iff {α β : Type} {f : α → Option β} {l : List α} {l' : List β} :
    l.mapM f = some l' ↔ l.map f = l'.map some := by
  induction l generalizing l' with
  | nil => cases l' <;> simp
  | cons a l ih =>
    rw [List.mapM_cons, List.map_cons]
    simp only [Option.bind_eq_bind, Option.bind_eq_some_iff, ih, Option.pure_def, Option.some.injEq]
    constructor
    · rintro ⟨b, hb, bs, hbs, rfl⟩
      rw [hb, hbs, List.map_cons]
    · intro h
      obtain ⟨b, bs, rfl, hb, hbs⟩ := List.map_eq_cons_iff.mp h.symm
      exact ⟨b, hb.symm, bs, hbs.symm, rfl⟩

section

variable {β γ : Type} {f : β → Option γ} {l : List β}

theorem exists_map_some (h : ∀ b ∈ l, ∃ c, f b = some c) :
    ∃ l' : List γ, l.map f = l'.map some := by
  have hrange : l.map f ∈ Set.range (List.map some) := by
    rw [Set.range_list_map]
    intro o ho
    obtain ⟨b, hb, rfl⟩ := List.mem_map.mp ho
    obtain ⟨c, hc⟩ := h b hb
    exact ⟨c, hc.symm⟩
  obtain ⟨l', hl'⟩ := hrange
  exact ⟨l', hl'.symm⟩

theorem mem_iff_of_map_eq {l' : List γ} (h : l.map f = l'.map some) {c : γ} :
    c ∈ l' ↔ ∃ b ∈ l, f b = some c := by
  rw [← List.mem_map, h, List.mem_map_of_injective (Option.some_injective γ)]

end

namespace Format.Lawful

variable {W α : Type} [Documented α] {F : Format W} (hF : F.Lawful) {items : List W}
  {fields fields' extra : List (String × W)} {kind : IdKind}

include hF

/-- An identifier is read from the texts that the format accepts for it. -/
theorem decode?_ident {s : String} {i : Ident kind} :
    decode? F (F.text s) = some i ↔ F.uuid? s = some i.uuid := by
  show (F.text? (F.text s)).bind _ = _ ↔ _
  rw [hF.text_read, Option.bind_some]
  refine Option.bind_eq_some_iff.trans ⟨?_, fun h => ⟨i.uuid, h, rfl⟩⟩
  rintro ⟨u, hu, h⟩
  cases h
  exact hu

theorem decode?_list {l : List α} :
    decode? F (F.list items) = some l ↔ items.map (decode? F) = l.map some := by
  show (F.list? (F.list items)).bind _ = _ ↔ _
  rw [hF.list_read, Option.bind_some, mapM_eq_some_iff]

/-- A set is read from a list if the items stand for members, and all members for items. How often
an item is written, in which order and in which spelling, does not matter. -/
theorem decode?_set [SortKey α] {s : SortedSet α} :
    decode? F (F.list items) = some s ↔
      (∀ d ∈ items, ∃ a ∈ s, decode? F d = some a) ∧
        ∀ a ∈ s, ∃ d ∈ items, decode? F d = some a := by
  have hread : decode? F (F.list items) = some s ↔
      ∃ l : List α, items.map (decode? F) = l.map some ∧ SortedBy.ofList l = s := by
    simp only [← hF.decode?_list]
    exact Option.map_eq_some_iff
  rw [hread]
  constructor
  · rintro ⟨l, hl, rfl⟩
    simp only [SortedSet.mem_ofList]
    refine ⟨fun d hd => ?_, fun a ha => (mem_iff_of_map_eq hl).mp ha⟩
    have hsome : (decode? F d : Option α) ∈ l.map some := hl ▸ List.mem_map_of_mem hd
    obtain ⟨a, ha, hda⟩ := List.mem_map.mp hsome
    exact ⟨a, ha, hda.symm⟩
  · rintro ⟨hitems, hmembers⟩
    obtain ⟨l, hl⟩ := exists_map_some fun d hd => (hitems d hd).imp fun a ha => ha.2
    refine ⟨l, hl, SortedBy.ext_mem fun a => ?_⟩
    rw [SortedSet.mem_ofList, mem_iff_of_map_eq hl]
    refine ⟨?_, hmembers a⟩
    rintro ⟨d, hd, hda⟩
    obtain ⟨b, hb, hdb⟩ := hitems d hd
    cases hda.symm.trans hdb
    exact hb

/-- A map is read from the record of its entries in any order and spelling; of several entries with
one key the last one counts. -/
theorem decode?_map (hnames : (fields.map Prod.fst).Nodup) {m : SortedMap (Ident kind) α} :
    decode? F (F.record fields) = some m ↔
      ∃ entries : List (Ident kind × α), fields.map F.entry? = entries.map some ∧
        ∀ k, SortedMap.get? m k = entries.reverse.lookup k := by
  have hread : decode? F (F.record fields) = some m ↔
      ∃ entries : List (Ident kind × α), fields.map F.entry? = entries.map some ∧
        SortedBy.ofList entries = m := by
    show ((F.entries? (F.record fields)).bind _).map _ = _ ↔ _
    rw [hF.entries_read hnames, Option.bind_some]
    simp only [← mapM_eq_some_iff]
    exact Option.map_eq_some_iff
  rw [hread]
  refine exists_congr fun entries => and_congr_right fun _ => ?_
  constructor
  · rintro rfl k
    exact SortedMap.get?_ofList entries k
  · intro h
    apply SortedMap.ext_get?
    intro k
    rw [SortedMap.get?_ofList, h]

end Format.Lawful

/-- A record is read by the names of its fields: they may stand in any order and among others. -/
def ReadsByName {W : Type} (F : Format W) (α : Type) [Documented α] (names : List String) : Prop :=
  ∀ fields fields' extra : List (String × W), (∀ n ∈ names, fields.countP (·.1 == n) ≤ 1) →
    fields'.Perm (fields ++ extra) → (∀ p ∈ extra, p.1 ∉ names) →
      (decode? F (F.record fields') : Option α) = decode? F (F.record fields)

theorem readsByName_ofFields {W α γ : Type} {F : Format W} (hF : F.Lawful) {c : Fields α}
    {make : α → γ} {parts : γ → α} {names : List String} (h : c.names = names) :
    @ReadsByName W F γ (.ofFields c make parts) names := by
  subst h
  intro fields fields' extra honce hperm hextra
  refine congrArg (Option.map make) ?_
  rw [Fields.ofRecord?, Fields.ofRecord?, hF.fields_eq_of_perm honce hperm hextra]

end RecordLinkage
