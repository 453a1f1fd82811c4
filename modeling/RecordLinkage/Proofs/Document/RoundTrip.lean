import RecordLinkage.Proofs.Document.Reading

namespace RecordLinkage

variable {W : Type} {F : Format W}

/-- Values that fit are read as they were written, exactly if the format returns the numbers in
them. Only such values are ever read: what was read, in whatever form, is in turn read as it is
written. -/
structure RoundTrips (F : Format W) (α : Type) [Documented α] (fits : α → Prop)
    (numbers : α → List Binary64) : Prop where
  read_written : ∀ x, fits x → (decode? F (encode F x) = some x ↔ ∀ r ∈ numbers x, F.Returns r)
  fits_of_read : ∀ (w : W) (x : α), decode? F w = some x → fits x
  stable : ∀ (w : W) (x : α), decode? F w = some x →
    (decode? F (encode F x) = some x ↔ ∀ r ∈ numbers x, F.Returns r)

/-- Values without numbers, which are all read as they were written. -/
abbrev RoundTripsAll (F : Format W) (α : Type) [Documented α] : Prop :=
  RoundTrips F α (fun _ => True) fun _ => []

namespace RoundTrips

variable {α : Type} [Documented α] {fits : α → Prop} {numbers : α → List Binary64}

theorem of_fits
    (hwritten : ∀ x, fits x → (decode? F (encode F x) = some x ↔ ∀ r ∈ numbers x, F.Returns r))
    (hread : ∀ (w : W) (x : α), decode? F w = some x → fits x) : RoundTrips F α fits numbers :=
  ⟨hwritten, hread, fun w x h => hwritten x (hread w x h)⟩

theorem of_all (h : ∀ x : α, decode? F (encode F x) = some x) : RoundTripsAll F α :=
  of_fits (fun x _ => iff_of_true (h x) (by simp)) fun _ _ _ => trivial

theorem all (h : RoundTripsAll F α) (x : α) : decode? F (encode F x) = some x :=
  (h.read_written x trivial).mpr (by simp)

theorem real : RoundTrips F Binary64 (fun _ => True) fun x => [x] :=
  of_fits (fun x _ => by rw [List.forall_mem_singleton]; rfl) fun _ _ _ => trivial

variable (hF : F.Lawful)

include hF

theorem natUpTo (largest : Nat) :
    @RoundTrips W F Nat (.natUpTo largest) (· ≤ largest) fun _ => [] := by
  let _ : Documented Nat := .natUpTo largest
  exact of_fits (fun n hn => iff_of_true (hF.nat_read hn) (by simp)) fun _ _ h => hF.nat_le h

theorem nat : RoundTrips F Nat (· ≤ 0xffffffffffffffff) fun _ => [] := natUpTo hF _

theorem text : RoundTripsAll F String := of_all hF.text_read

theorem ident {kind : IdKind} : RoundTripsAll F (Ident kind) :=
  of_all fun i => hF.decode?_ident.mpr (hF.uuid_read i.uuid)

theorem list (h : RoundTripsAll F α) : RoundTripsAll F (List α) := by
  refine of_all fun l => hF.decode?_list.mpr ?_
  rw [List.map_map]
  exact List.map_congr_left fun x _ => h.all x

theorem set [SortKey α] (h : RoundTripsAll F α) : RoundTripsAll F (SortedSet α) := by
  refine of_all fun s => ?_
  show (decode? F (encode F s.toList)).map SortedBy.ofList = some s
  rw [(list hF h).all s.toList, Option.map_some, SortedBy.ofList_toList]

theorem map {kind : IdKind} (h : RoundTripsAll F α) :
    RoundTripsAll F (SortedMap (Ident kind) α) := by
  refine of_all fun m => ?_
  have hnames : ((m.toList.map fun p => (F.uuid p.1.uuid, encode F p.2)).map Prod.fst).Nodup := by
    rw [List.map_map]
    refine List.pairwise_map.mpr (m.keys_distinct.imp fun hne he => hne ?_)
    exact congrArg Ident.mk (hF.uuid_injective he)
  refine (hF.decode?_map hnames).mpr ⟨m.toList, ?_, ?_⟩
  · rw [List.map_map]
    refine List.map_congr_left fun p _ => ?_
    show (F.entry? (F.uuid p.1.uuid, encode F p.2) : Option (Ident kind × α)) = some p
    rw [Format.entry?, hF.uuid_read, h.all p.2]
    rfl
  · intro k
    rw [← SortedMap.get?_ofList, SortedBy.ofList_toList]

end RoundTrips

namespace Fields

variable {α β : Type} {c : Fields α} {d : Fields β} {fits : α → Prop} {numbers : α → List Binary64}
  {fits' : β → Prop} {numbers' : β → List Binary64}

/-- Fields are read as they were written, from everything in which they stand under their names. -/
structure RoundTrip (F : Format W) (c : Fields α) (fits : α → Prop)
    (numbers : α → List Binary64) : Prop where
  names_written : ∀ x, (c.encode F x).map Prod.fst = c.names
  read_written : ∀ x get, fits x → (∀ p ∈ c.encode F x, get p.1 = some p.2) →
    (c.decode? F get = some x ↔ ∀ r ∈ numbers x, F.Returns r)
  fits_of_read : ∀ get x, c.decode? F get = some x → fits x

theorem RoundTrip.fieldOr [Documented α] (h : RoundTrips F α fits numbers) (name : String)
    {missing : Option α} (hmissing : ∀ x ∈ missing, fits x) :
    (fieldOr name missing).RoundTrip F fits numbers where
  names_written _ := rfl
  read_written x get hx hget := by
    show (get name).elim missing (Documented.decode? F) = some x ↔ _
    rw [hget (name, Documented.encode F x) (by simp [Fields.fieldOr])]
    exact h.read_written x hx
  fits_of_read get x hread := by
    cases hname : get name with
    | none => exact hmissing x (by simpa [Fields.fieldOr, hname] using hread)
    | some w => exact h.fits_of_read w x (by simpa [Fields.fieldOr, hname] using hread)

theorem RoundTrip.field [Documented α] (h : RoundTrips F α fits numbers) (name : String) :
    (field name).RoundTrip F fits numbers := .fieldOr h name (by simp)

theorem RoundTrip.and (hc : c.RoundTrip F fits numbers) (hd : d.RoundTrip F fits' numbers') :
    (c.and d).RoundTrip F (fun p => fits p.1 ∧ fits' p.2) fun p => numbers p.1 ++ numbers' p.2 where
  names_written p := by
    rw [Fields.and, List.map_append, hc.names_written, hd.names_written]
  read_written p get hp hget := by
    have hleft := hc.read_written p.1 get hp.1 fun q hq => hget q (List.mem_append_left _ hq)
    have hright := hd.read_written p.2 get hp.2 fun q hq => hget q (List.mem_append_right _ hq)
    rw [List.forall_mem_append, ← hleft, ← hright]
    show ((c.decode? F get).bind fun a => (d.decode? F get).bind fun b => some (a, b)) = some p ↔ _
    simp only [Option.bind_eq_some_iff, Option.some.injEq]
    constructor
    · rintro ⟨a, ha, b, hb, rfl⟩
      exact ⟨ha, hb⟩
    · rintro ⟨ha, hb⟩
      exact ⟨_, ha, _, hb, rfl⟩
  fits_of_read get p h := by
    obtain ⟨a, ha, h⟩ := Option.bind_eq_some_iff.mp h
    obtain ⟨b, hb, h⟩ := Option.bind_eq_some_iff.mp h
    cases h
    exact ⟨hc.fits_of_read get a ha, hd.fits_of_read get b hb⟩

theorem RoundTrip.ofRecord? (hF : F.Lawful) (h : c.RoundTrip F fits numbers)
    (hnames : c.names.Nodup) {x : α} (hx : fits x) :
    c.ofRecord? F (F.record (c.encode F x)) = some x ↔ ∀ r ∈ numbers x, F.Returns r := by
  have honce := countP_le_one_of_nodup ((h.names_written x).symm ▸ hnames)
  show (F.fields? c.names _).bind _ = _ ↔ _
  rw [hF.fields_read fun n _ => honce n, Option.bind_some]
  refine h.read_written x _ hx fun p hp => ?_
  have hname : p.1 ∈ c.names := h.names_written x ▸ List.mem_map_of_mem hp
  rw [if_pos hname]
  exact (lookup_eq_some_iff_mem (honce p.1)).mpr hp

end Fields

theorem RoundTrips.ofFields {α γ : Type} {c : Fields α} {fits : α → Prop}
    {numbers : α → List Binary64} {make : α → γ} {parts : γ → α} {fits' : γ → Prop}
    {numbers' : γ → List Binary64} (hF : F.Lawful) (h : c.RoundTrip F fits numbers)
    (hnames : c.names.Nodup) (hmake : ∀ x, make (parts x) = x) (hparts : ∀ a, parts (make a) = a)
    (hfits : ∀ x, fits' x ↔ fits (parts x)) (hnumbers : ∀ x, numbers' x = numbers (parts x)) :
    @RoundTrips W F γ (.ofFields c make parts) fits' numbers' := by
  let _ : Documented γ := .ofFields c make parts
  have hread {w : W} {x : γ} : decode? F w = some x ↔ c.ofRecord? F w = some (parts x) := by
    refine Option.map_eq_some_iff.trans ⟨?_, fun hx => ⟨parts x, hx, hmake x⟩⟩
    rintro ⟨a, ha, rfl⟩
    rw [hparts, ha]
  refine of_fits (fun x hx => ?_) fun w x hw => (hfits x).mpr ?_
  · rw [hread, hnumbers]
    exact h.ofRecord? hF hnames ((hfits x).mp hx)
  · obtain ⟨get, -, hget⟩ := Option.bind_eq_some_iff.mp (hread.mp hw)
    exact h.fits_of_read get (parts x) hget

end RecordLinkage
