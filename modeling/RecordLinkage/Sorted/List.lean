import RecordLinkage.Sorted.Key

namespace RecordLinkage

/-- A list kept in strictly ascending order of a key, so that its elements determine it. -/
structure SortedBy {α κ : Type} [SortKey κ] (key : α → κ) where
  toList : List α
  ascending : toList.Pairwise fun a b => compare (key a) (key b) = .lt

namespace SortedBy

variable {α κ : Type} [SortKey κ] {key : α → κ}

instance [DecidableEq α] : DecidableEq (SortedBy key) := fun s t =>
  decidable_of_iff (s.toList = t.toList)
    ⟨fun h => by cases s; cases t; simp_all, fun h => h ▸ rfl⟩

instance [Repr α] : Repr (SortedBy key) := ⟨fun s n => reprPrec s.toList n⟩

def empty : SortedBy key := ⟨[], .nil⟩

instance : EmptyCollection (SortedBy key) := ⟨empty⟩

instance : Inhabited (SortedBy key) := ⟨empty⟩

def size (s : SortedBy key) : Nat := s.toList.length

def isEmpty (s : SortedBy key) : Bool := s.toList.isEmpty

def find? (s : SortedBy key) (k : κ) : Option α :=
  s.toList.find? fun a => compare (key a) k == .eq

def contains (s : SortedBy key) (k : κ) : Bool := (s.find? k).isSome

/-- Puts an element in its place; an element with the same key gives way. -/
def place (key : α → κ) (a : α) : List α → List α
  | [] => [a]
  | b :: l =>
    match compare (key a) (key b) with
    | .lt => a :: b :: l
    | .eq => a :: l
    | .gt => b :: place key a l

theorem mem_place {a x : α} {l : List α} (h : x ∈ place key a l) : x = a ∨ x ∈ l := by
  induction l with
  | nil => simpa [place] using h
  | cons b l ih =>
    simp only [place] at h
    split at h
    · simpa using h
    · simp only [List.mem_cons] at h ⊢
      exact h.imp_right Or.inr
    · simp only [List.mem_cons] at h ⊢
      rcases h with h | h
      · exact .inr (.inl h)
      · exact (ih h).imp_right Or.inr

theorem place_ascending (a : α) {l : List α}
    (h : l.Pairwise fun a b => compare (key a) (key b) = .lt) :
    (place key a l).Pairwise fun a b => compare (key a) (key b) = .lt := by
  induction l with
  | nil => simp [place]
  | cons b l ih =>
    rw [List.pairwise_cons] at h
    simp only [place]
    split
    · rename_i hlt
      refine List.pairwise_cons.mpr ⟨fun x hx => ?_, List.pairwise_cons.mpr h⟩
      rcases List.mem_cons.mp hx with rfl | hx
      · exact hlt
      · exact SortKey.lt_trans hlt (h.1 x hx)
    · rename_i heq
      rw [SortKey.compare_eq_eq] at heq
      exact List.pairwise_cons.mpr ⟨fun x hx => heq ▸ h.1 x hx, h.2⟩
    · rename_i hgt
      refine List.pairwise_cons.mpr ⟨fun x hx => ?_, ih h.2⟩
      rcases mem_place hx with rfl | hx
      · exact SortKey.lt_of_gt hgt
      · exact h.1 x hx

def insert (s : SortedBy key) (a : α) : SortedBy key :=
  ⟨place key a s.toList, place_ascending a s.ascending⟩

def filter (s : SortedBy key) (p : α → Bool) : SortedBy key :=
  ⟨s.toList.filter p, s.ascending.sublist List.filter_sublist⟩

def erase (s : SortedBy key) (k : κ) : SortedBy key :=
  s.filter fun a => compare (key a) k != .eq

def insertAll (s : SortedBy key) (l : List α) : SortedBy key := l.foldl insert s

/-- Of elements with one key the last one stays. -/
def ofList (l : List α) : SortedBy key := empty.insertAll l

end SortedBy

end RecordLinkage
