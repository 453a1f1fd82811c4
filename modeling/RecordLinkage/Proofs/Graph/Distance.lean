import RecordLinkage.Proofs.Drain.Step
import RecordLinkage.Proofs.Graph.Coherent

namespace RecordLinkage

namespace Link

variable {u v a b : VertexId} {l : Link}

@[simp] theorem between?_self (v : VertexId) : between? v v = none := by
  simp [between?, Std.compare_self]

theorem between?_comm (u v : VertexId) : between? u v = between? v u := by
  have hswap : compare v u = (compare u v).swap := Std.OrientedCmp.eq_swap
  rw [between?, between?, hswap]
  cases h : compare u v <;> rfl

/-- A link in normal form is the one between its ends. -/
theorem between?_ends (h : compare l.src l.dst = .lt) : between? l.src l.dst = some l := by
  rw [between?, h]

theorem between?_spec (h : between? u v = some l) :
    compare l.src l.dst = .lt ∧ (l.src = u ∧ l.dst = v ∨ l.src = v ∧ l.dst = u) := by
  rw [between?] at h
  split at h
  · rename_i hlt
    cases h
    exact ⟨hlt, .inl ⟨rfl, rfl⟩⟩
  · cases h
  · rename_i hgt
    cases h
    exact ⟨SortKey.lt_of_gt hgt, .inr ⟨rfl, rfl⟩⟩

theorem ne_of_between? (h : between? u v = some l) : u ≠ v := by
  intro huv
  rw [huv, between?_self] at h
  cases h

theorem exists_between? (h : u ≠ v) : ∃ l, between? u v = some l := by
  rw [between?]
  split
  · exact ⟨_, rfl⟩
  · rename_i heq
    exact absurd (SortKey.compare_eq_eq.mp heq) h
  · exact ⟨_, rfl⟩

theorem eq_of_between? (h : between? u v = none) : u = v := by
  apply Classical.byContradiction
  intro huv
  obtain ⟨l, hl⟩ := exists_between? huv
  rw [h] at hl
  cases hl

theorem between?_eq_iff (h : between? u v = some l) :
    between? a b = some l ↔ a = u ∧ b = v ∨ a = v ∧ b = u := by
  constructor
  · intro hab
    rcases (between?_spec h).2 with ⟨rfl, rfl⟩ | ⟨rfl, rfl⟩ <;>
      rcases (between?_spec hab).2 with ⟨hs, hd⟩ | ⟨hs, hd⟩ <;> simp [hs, hd]
  · intro hab
    rcases hab with ⟨rfl, rfl⟩ | ⟨rfl, rfl⟩
    · exact h
    · exact (between?_comm ..).trans h

end Link

variable {ω : Type} [Weight ω]

def nearer : Option ω → Option ω → Option ω
  | none, b => b
  | some a, none => some a
  | some a, some b => some (Weight.min a b)

@[simp] theorem nearer_none (a : Option ω) : nearer a none = a := by
  cases a <;> rfl

theorem get?_foldl_nearer (l : List (VertexId × ω)) (m : SortedMap VertexId ω) (u : VertexId)
    (h : l.Pairwise fun p q => p.1 ≠ q.1) :
    SortedMap.get? (l.foldl (fun m p => SortedMap.alter m p.1 (nearer · (some p.2))) m) u =
      nearer (SortedMap.get? m u) (SortedMap.get? (.ofList l : SortedMap VertexId ω) u) := by
  induction l generalizing m with
  | nil => exact (nearer_none _).symm
  | cons p l ih =>
    rw [List.foldl_cons, ih _ (List.pairwise_cons.mp h).2]
    by_cases hp : p.1 = u
    · subst hp
      -- The keys are distinct: the rest of the list says nothing about this one.
      have hnone : SortedMap.get? (.ofList l : SortedMap VertexId ω) p.1 = none := by
        apply Option.eq_none_iff_forall_ne_some.mpr
        intro w hw
        rw [SortedMap.get?_ofList_eq_some (List.pairwise_cons.mp h).2] at hw
        exact (List.pairwise_cons.mp h).1 _ hw rfl
      have hsome : SortedMap.get? (.ofList (p :: l) : SortedMap VertexId ω) p.1 = some p.2 := by
        rw [SortedMap.get?_ofList_eq_some h]
        exact List.mem_cons_self
      rw [hnone, hsome, nearer_none, SortedMap.get?_alter_self]
    · have hrest : SortedMap.get? (.ofList (p :: l) : SortedMap VertexId ω) u =
          SortedMap.get? (.ofList l : SortedMap VertexId ω) u := by
        apply Option.ext
        intro w
        rw [SortedMap.get?_ofList_eq_some h,
          SortedMap.get?_ofList_eq_some (List.pairwise_cons.mp h).2, List.mem_cons]
        constructor
        · intro hw
          rcases hw with hw | hw
          · exact absurd (congrArg Prod.fst hw).symm hp
          · exact hw
        · exact .inr
      rw [hrest, SortedMap.get?_alter_of_ne _ hp]

theorem get?_joinSides (v : VertexId) (destinations sources : SortedMap VertexId ω)
    (u : VertexId) : SortedMap.get? (joinSides v destinations sources) u =
      if v = u then none
      else nearer (SortedMap.get? destinations u) (SortedMap.get? sources u) := by
  rw [joinSides, SortedMap.get?_erase]
  split
  · rfl
  · refine (congrArg (fun f => SortedMap.get? (sources.toList.foldl f destinations) u)
      (?_ : _ = fun m p => SortedMap.alter m p.1 (nearer · (some p.2)))).trans ?_
    · funext m p
      congr
      funext old
      cases old <;> rfl
    · rw [get?_foldl_nearer _ _ _ sources.keys_distinct,
        SortedMap.get?_ofList_toList]

theorem get?_relinked (fromA fromB : SortedMap VertexId ω) (w : ω) (v : VertexId) :
    SortedMap.get? (relinked fromA fromB w) v =
      linkage (SortedMap.get? fromA v) (SortedMap.get? fromB v) w := by
  have hmem : v ∈ SortedSet.union (.ofList (SortedMap.keys fromA)) (.ofList (SortedMap.keys fromB)) ↔
      (SortedMap.get? fromA v).isSome = true ∨ (SortedMap.get? fromB v).isSome = true := by
    rw [SortedSet.mem_union, SortedSet.mem_ofList, SortedSet.mem_ofList, SortedMap.mem_keys,
      SortedMap.mem_keys]
  classical
  refine (SortedMap.get?_ofList_filterMap _ (fun v =>
    linkage (SortedMap.get? fromA v) (SortedMap.get? fromB v) w) v).trans ?_
  split
  · rfl
  · rename_i hno
    rw [hmem, not_or] at hno
    rw [Option.not_isSome_iff_eq_none.mp hno.1, Option.not_isSome_iff_eq_none.mp hno.2]
    rfl

namespace Graph

variable {G : Graph ω} {u v a b k : VertexId} {l : Link} {w : ω}

def distance? (G : Graph ω) (u v : VertexId) : Option ω :=
  (Link.between? u v).bind G.edges.weight?

structure Canonical (G : Graph ω) : Prop where
  coherent : G.edges.Coherent
  normal : ∀ l w, G.edges.weight? l = some w → compare l.src l.dst = .lt

theorem distance?_comm (G : Graph ω) (u v : VertexId) : G.distance? u v = G.distance? v u := by
  rw [distance?, Link.between?_comm, distance?]

@[simp] theorem distance?_self (G : Graph ω) (v : VertexId) : G.distance? v v = none := by
  simp [distance?]

theorem distance?_of_between? (h : Link.between? u v = some l) :
    G.distance? u v = G.edges.weight? l := by
  rw [distance?, h, Option.bind_some]

theorem Canonical.distance?_ends (h : G.Canonical) (hl : G.edges.weight? l = some w) :
    G.distance? l.src l.dst = some w := by
  rw [distance?_of_between? (Link.between?_ends (h.normal l w hl)), hl]

theorem Canonical.empty : (∅ : Graph ω).Canonical := ⟨.empty, nofun⟩

theorem Canonical.congr {G' : Graph ω} (h : G.Canonical) (he : G'.edges = G.edges) :
    G'.Canonical := ⟨he ▸ h.coherent, he ▸ h.normal⟩

theorem distance?_congr {G' : Graph ω} (he : G'.edges = G.edges) (u v : VertexId) :
    G'.distance? u v = G.distance? u v := by
  rw [distance?, he, distance?]

theorem get?_adjacent (G : Graph ω) (index : SortedMap VertexId (SortedSet VertexId))
    (v u : VertexId) [Decidable (EdgeIndex.Lists index v u)] :
    SortedMap.get? (G.edges.adjacent index v) u =
      if EdgeIndex.Lists index v u then G.distance? v u else none := by
  let _ : Decidable (u ∈ (SortedMap.get? index v).getD ∅) :=
    inferInstanceAs (Decidable (EdgeIndex.Lists index v u))
  refine Eq.trans ?_ (SortedMap.get?_ofList_filterMap _ (fun u => G.distance? v u) u)
  rw [EdgeIndex.adjacent]
  congr
  funext u
  rw [distance?, Option.map_bind]
  rfl

/-- In normal form a link is seen from exactly one of its sides, so nothing is joined. -/
theorem Canonical.get?_neighbors (h : G.Canonical) (v u : VertexId) :
    SortedMap.get? (G.neighbors v) u = G.distance? v u := by
  classical
  have hnormal {a b : VertexId} (hab : (G.edges.weight? ⟨a, b⟩).isSome = true) :
      compare a b = .lt := by
    obtain ⟨w, hw⟩ := Option.isSome_iff_exists.mp hab
    exact h.normal _ w hw
  rw [neighbors, get?_joinSides, EdgeIndex.destinations, EdgeIndex.sources, get?_adjacent,
    get?_adjacent]
  by_cases hvu : v = u
  · rw [if_pos hvu, hvu, distance?_self]
  · rw [if_neg hvu]
    by_cases hout : EdgeIndex.Lists G.edges.outgoing v u
    · have hin : ¬ EdgeIndex.Lists G.edges.incoming v u := by
        intro hin
        have hlt := hnormal ((h.coherent.outgoing v u).mp hout)
        have hgt := hnormal ((h.coherent.incoming u v).mp hin)
        rw [SortKey.lt_asymm hlt] at hgt
        cases hgt
      rw [if_pos hout, if_neg hin, nearer_none]
    · by_cases hin : EdgeIndex.Lists G.edges.incoming v u
      · rw [if_neg hout, if_pos hin]
        rfl
      · rw [if_neg hout, if_neg hin]
        rw [h.coherent.outgoing, Option.not_isSome_iff_eq_none] at hout
        rw [h.coherent.incoming, Option.not_isSome_iff_eq_none] at hin
        obtain ⟨l, hl⟩ := Link.exists_between? hvu
        rw [distance?_of_between? hl, nearer_none]
        rcases (Link.between?_spec hl).2 with ⟨rfl, rfl⟩ | ⟨rfl, rfl⟩
        · exact hout.symm
        · exact hin.symm

theorem Canonical.get?_relinks (h : G.Canonical) (l : Link) (w : ω) (v : VertexId) :
    SortedMap.get? (G.relinks l w) v =
      linkage (if l.dst = v then none else G.distance? l.src v)
        (if l.src = v then none else G.distance? l.dst v) w := by
  rw [relinks, get?_relinked, SortedMap.get?_erase, SortedMap.get?_erase, h.get?_neighbors,
    h.get?_neighbors]

/-- The ends themselves are not linked to the union. -/
theorem Canonical.get?_relinks_end (h : G.Canonical) (hv : v = l.src ∨ v = l.dst) :
    SortedMap.get? (G.relinks l w) v = none := by
  rw [h.get?_relinks]
  rcases hv with rfl | rfl
  · simp [linkage]
  · simp [linkage]

end Graph

end RecordLinkage
