import RecordLinkage.Proofs.Graph.Coherent
import RecordLinkage.Proofs.Sorted.Ext

namespace RecordLinkage

namespace EdgeIndex

/-- What is done to an index: a link is stored under a weight, or removed. Neither the ends of the
link nor its weight need be in order, and the link need not be there. -/
inductive Edit (ω : Type) where
  | put (l : Link) (w : ω)
  | erase (l : Link)
  deriving DecidableEq, Repr

variable {ω : Type}

namespace Edit

def link : Edit ω → Link
  | put l _ => l
  | erase l => l

def weight? : Edit ω → Option ω
  | put _ w => some w
  | erase _ => none

def apply [Weight ω] (x : EdgeIndex ω) : Edit ω → EdgeIndex ω
  | put l w => x.put l w
  | erase l => x.erase l

end Edit

def lastWeight (es : List (Edit ω)) (l : Link) : Option ω :=
  (es.reverse.find? fun e => e.link = l).bind Edit.weight?

theorem lastWeight_concat (es : List (Edit ω)) (e : Edit ω) (l : Link) :
    lastWeight (es ++ [e]) l = if e.link = l then e.weight? else lastWeight es l := by
  rw [lastWeight, List.reverse_append, List.reverse_singleton, List.singleton_append,
    List.find?_cons]
  by_cases h : e.link = l
  · simp [h]
  · simp [h, lastWeight]

variable [Weight ω] {x : EdgeIndex ω}

def edited (x : EdgeIndex ω) (es : List (Edit ω)) : EdgeIndex ω := es.foldl Edit.apply x

theorem edited_concat (x : EdgeIndex ω) (es : List (Edit ω)) (e : Edit ω) :
    x.edited (es ++ [e]) = e.apply (x.edited es) := List.foldl_concat ..

theorem weight?_apply (x : EdgeIndex ω) (e : Edit ω) (l : Link) :
    (e.apply x).weight? l = if e.link = l then e.weight? else x.weight? l := by
  cases e with
  | put l' w => exact weight?_put x l' l w
  | erase l' => exact weight?_erase x l' l

theorem Coherent.apply (h : x.Coherent) (e : Edit ω) : (e.apply x).Coherent := by
  cases e with
  | put l w => exact h.put l w
  | erase l => exact h.erase l

theorem weight?_edited (es : List (Edit ω)) (l : Link) :
    (edited ∅ es).weight? l = lastWeight es l := by
  induction es using List.reverseRecOn with
  | nil => rfl
  | append_singleton es e ih => rw [edited_concat, weight?_apply, lastWeight_concat, ih]

theorem Coherent.edited (h : x.Coherent) (es : List (Edit ω)) : (x.edited es).Coherent := by
  induction es using List.reverseRecOn with
  | nil => exact h
  | append_singleton es e ih =>
    rw [edited_concat]
    exact ih.apply e

/-- Without empty sets, an index gives for each vertex just the set of what it lists under it. -/
theorem Tidy.get?_eq_some_iff {m : SortedMap VertexId (SortedSet VertexId)} (h : Tidy m)
    {a : VertexId} {s : SortedSet VertexId} :
    SortedMap.get? m a = some s ↔ s ≠ ∅ ∧ ∀ b, b ∈ s ↔ Lists m a b := by
  constructor
  · intro hs
    constructor
    · rintro rfl
      obtain ⟨b, hb⟩ := h a ∅ hs
      exact SortedBy.not_mem_empty b hb
    · intro b
      rw [Lists, hs, Option.getD_some]
  · rintro ⟨hfull, hs⟩
    have hset : (SortedMap.get? m a).getD ∅ = s := SortedBy.ext_mem fun b => (hs b).symm
    cases hm : SortedMap.get? m a with
    | none =>
      -- A missing vertex reads as the empty set, which the index never keeps.
      rw [hm, Option.getD_none] at hset
      exact absurd hset.symm hfull
    | some s' =>
      rw [hm, Option.getD_some] at hset
      rw [hset]

/-- The indexes hold what the entries say and nothing else: each entry once by its weight, and the
far ends of the entries under each end, where there are any. -/
structure Exact (x : EdgeIndex ω) : Prop where
  byWeight : x.byWeight.toList.Perm (x.weights.toList.map Prod.swap)
  outgoing : ∀ a s, SortedMap.get? x.outgoing a = some s ↔
    s ≠ ∅ ∧ ∀ b, b ∈ s ↔ ∃ w, (⟨a, b⟩, w) ∈ x.weights
  incoming : ∀ b s, SortedMap.get? x.incoming b = some s ↔
    s ≠ ∅ ∧ ∀ a, a ∈ s ↔ ∃ w, (⟨a, b⟩, w) ∈ x.weights

theorem isSome_weight?_iff {l : Link} :
    (x.weight? l).isSome = true ↔ ∃ w, (l, w) ∈ x.weights := by
  rw [Option.isSome_iff_exists]
  exact exists_congr fun w => SortedMap.get?_eq_some_iff

theorem Coherent.exact (h : x.Coherent) : x.Exact where
  byWeight := h.byWeight_perm
  outgoing a s := by
    rw [h.outgoingTidy.get?_eq_some_iff]
    simp only [h.outgoing, isSome_weight?_iff]
  incoming b s := by
    rw [h.incomingTidy.get?_eq_some_iff]
    simp only [h.incoming, isSome_weight?_iff]

/-- Whatever is done to an empty index, each link has the weight that its last edit left to it, to
the bit; the indexes hold the entries and nothing else; and a removal changes nothing exactly when
the link is not there. -/
theorem indexes_hold_entries (es : List (Edit Binary64)) :
    (∀ l, (edited ∅ es).weight? l = lastWeight es l) ∧
      (edited ∅ es).Exact ∧
      ∀ l, (edited ∅ es).erase l = edited ∅ es ↔ (edited ∅ es).weight? l = none := by
  have hcoherent : (edited ∅ es : EdgeIndex Binary64).Coherent := Coherent.empty.edited es
  exact ⟨weight?_edited es, hcoherent.exact, fun _ => erase_eq_self_iff⟩

/-- One zero replaces the other on a link from a vertex to itself. -/
example :
    let l : Link := ⟨⟨⟨1⟩⟩, ⟨⟨1⟩⟩⟩
    (edited ∅ [.put l Binary64.zero, .put l Binary64.zero.neg]).byWeight.toList =
      [(Binary64.zero.neg, l)] := by
  decide +kernel

end EdgeIndex

end RecordLinkage
