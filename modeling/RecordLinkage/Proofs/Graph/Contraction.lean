import RecordLinkage.Proofs.Graph.Distance

namespace RecordLinkage.Graph

variable {ω : Type} [Weight ω] {G : Graph ω} {u v a b k z : VertexId} {l : Link} {w : ω}

theorem distance?_putLink (hl : Link.between? u v = some l) (w : ω) (a b : VertexId) :
    (G.putLink l w).distance? a b =
      if a = u ∧ b = v ∨ a = v ∧ b = u then some w else G.distance? a b := by
  have hsame := Link.between?_eq_iff (a := a) (b := b) hl
  rw [distance?, distance?]
  cases hab : Link.between? a b with
  | none =>
    rw [hab] at hsame
    have hends : ¬ (a = u ∧ b = v ∨ a = v ∧ b = u) := by
      intro hends
      cases hsame.mpr hends
    rw [if_neg hends]
    rfl
  | some l' =>
    rw [hab, Option.some.injEq, eq_comm] at hsame
    rw [Option.bind_some, Option.bind_some, putLink, EdgeIndex.weight?_put]
    simp only [hsame]

theorem distance?_eraseLink (hl : Link.between? u v = some l) (a b : VertexId) :
    (G.eraseLink l).distance? a b =
      if a = u ∧ b = v ∨ a = v ∧ b = u then none else G.distance? a b := by
  have hsame := Link.between?_eq_iff (a := a) (b := b) hl
  rw [distance?, distance?]
  cases hab : Link.between? a b with
  | none =>
    simp
  | some l' =>
    rw [hab, Option.some.injEq, eq_comm] at hsame
    rw [Option.bind_some, Option.bind_some, eraseLink, EdgeIndex.weight?_erase]
    simp only [hsame]

theorem Canonical.putLink (h : G.Canonical) (hl : compare l.src l.dst = .lt) (w : ω) :
    (G.putLink l w).Canonical :=
  ⟨h.coherent.put l w, EdgeIndex.forall_weight?_put h.normal hl⟩

theorem Canonical.eraseLink (h : G.Canonical) (l : Link) : (G.eraseLink l).Canonical :=
  ⟨h.coherent.erase l, EdgeIndex.forall_weight?_erase h.normal⟩

theorem Canonical.link (h : G.Canonical) (u v : VertexId) (w : ω) : (G.link u v w).Canonical := by
  rw [Graph.link]
  split
  · rename_i l hl
    exact h.putLink (Link.between?_spec hl).1 w
  · exact h

theorem Canonical.unlink (h : G.Canonical) (u v : VertexId) : (G.unlink u v).Canonical := by
  rw [Graph.unlink]
  split
  · exact h.eraseLink _
  · exact h

theorem Canonical.linkAll (h : G.Canonical) (v : VertexId) (links : List (VertexId × ω)) :
    (G.linkAll v links).Canonical := by
  induction links generalizing G with
  | nil => exact h
  | cons p links ih => exact ih (h.link v p.1 p.2)

theorem Canonical.unlinkAll (h : G.Canonical) (v : VertexId) (l : List VertexId) :
    (G.unlinkAll v l).Canonical := by
  induction l generalizing G with
  | nil => exact h
  | cons u l ih => exact ih (h.unlink v u)

theorem Canonical.contract (h : G.Canonical) (l : Link) (w : ω) (x y : Cluster ω) (k : VertexId) :
    (G.contract l w x y k).Canonical := by
  have hadjoined : (G.adjoin k x y w).Canonical := h.congr rfl
  have hlinked := hadjoined.linkAll k (G.relinks l w).toList
  have hunlinkedA := hlinked.unlinkAll l.src (SortedMap.keys ((G.neighbors l.src).erase l.dst))
  have hunlinkedB := hunlinkedA.unlinkAll l.dst (SortedMap.keys ((G.neighbors l.dst).erase l.src))
  apply (hunlinkedB.eraseLink l).congr
  rw [Graph.contract, edges_retire, edges_retire]

theorem distance?_link (G : Graph ω) (u v : VertexId) (w : ω) (a b : VertexId) :
    (G.link u v w).distance? a b =
      if u ≠ v ∧ (a = u ∧ b = v ∨ a = v ∧ b = u) then some w else G.distance? a b := by
  rw [link]
  cases hl : Link.between? u v with
  | none =>
    simp [Link.eq_of_between? hl]
  | some l =>
    rw [distance?_putLink hl]
    simp [Link.ne_of_between? hl]

theorem distance?_unlink (G : Graph ω) (u v a b : VertexId) :
    (G.unlink u v).distance? a b =
      if a = u ∧ b = v ∨ a = v ∧ b = u then none else G.distance? a b := by
  rw [unlink]
  cases hl : Link.between? u v with
  | none =>
    dsimp only
    split
    · rename_i hends
      have hself : a = b := by
        have huv := Link.eq_of_between? hl
        rcases hends with ⟨rfl, rfl⟩ | ⟨rfl, rfl⟩
        · exact huv
        · exact huv.symm
      rw [hself, distance?_self]
    · rfl
  | some l => exact distance?_eraseLink hl a b

/-- Linking `k` to others leaves the links among the others alone. -/
theorem distance?_linkAll_of_ne (G : Graph ω) (links : List (VertexId × ω)) (ha : a ≠ k)
    (hb : b ≠ k) : (G.linkAll k links).distance? a b = G.distance? a b := by
  induction links generalizing G with
  | nil => rfl
  | cons p links ih =>
    refine (ih (G.link k p.1 p.2)).trans ?_
    rw [distance?_link, if_neg]
    simp [ha, hb]

theorem distance?_linkAll (G : Graph ω) {links : List (VertexId × ω)}
    (hlinks : links.Pairwise fun p q => p.1 ≠ q.1) (hz : k ≠ z) :
    (G.linkAll k links).distance? k z =
      (SortedMap.get? (.ofList links : SortedMap VertexId ω) z).or (G.distance? k z) := by
  induction links generalizing G with
  | nil => rfl
  | cons p links ih =>
    obtain ⟨hp, hrest⟩ := List.pairwise_cons.mp hlinks
    refine (ih (G.link k p.1 p.2) hrest).trans ?_
    rw [distance?_link]
    apply Option.ext
    intro w
    rw [Option.or_eq_some_iff, Option.or_eq_some_iff, Option.eq_none_iff_forall_ne_some,
      Option.eq_none_iff_forall_ne_some]
    simp only [ne_eq, SortedMap.get?_ofList_eq_some hrest, SortedMap.get?_ofList_eq_some hlinks]
    by_cases hpz : z = p.1
    · subst hpz
      -- A neighbour is listed once, so no later link replaces this one.
      have hnone (w : ω) : ¬ (p.1, w) ∈ links := fun hw => hp _ hw rfl
      simp [hnone, hz, Prod.ext_iff, eq_comm]
    · have hmem (w : ω) : (z, w) ∈ p :: links ↔ (z, w) ∈ links := by
        rw [List.mem_cons]
        simp [Prod.ext_iff, hpz]
      simp [hmem, hpz, Ne.symm hz]

theorem distance?_unlinkAll (G : Graph ω) (v : VertexId) (l : List VertexId) (a b : VertexId) :
    (G.unlinkAll v l).distance? a b =
      if a = v ∧ b ∈ l ∨ b = v ∧ a ∈ l then none else G.distance? a b := by
  induction l generalizing G with
  | nil => simp [unlinkAll]
  | cons u l ih =>
    refine (ih (G.unlink v u)).trans ?_
    rw [distance?_unlink]
    by_cases hl : a = v ∧ b ∈ l ∨ b = v ∧ a ∈ l
    · rw [if_pos hl, if_pos]
      rcases hl with ⟨ha, hb⟩ | ⟨hb, ha⟩
      · exact .inl ⟨ha, List.mem_cons_of_mem u hb⟩
      · exact .inr ⟨hb, List.mem_cons_of_mem u ha⟩
    · rw [if_neg hl]
      -- Where none of the later vertices matters, only the first one can.
      have hiff : a = v ∧ b = u ∨ a = u ∧ b = v ↔
          a = v ∧ b ∈ u :: l ∨ b = v ∧ a ∈ u :: l := by
        rw [List.mem_cons, List.mem_cons]
        constructor
        · intro h
          rcases h with ⟨ha, hb⟩ | ⟨ha, hb⟩
          · exact .inl ⟨ha, .inl hb⟩
          · exact .inr ⟨hb, .inl ha⟩
        · intro h
          rcases h with ⟨ha, hb | hb⟩ | ⟨hb, ha | ha⟩
          · exact .inl ⟨ha, hb⟩
          · exact absurd (.inl ⟨ha, hb⟩) hl
          · exact .inr ⟨ha, hb⟩
          · exact absurd (.inr ⟨hb, ha⟩) hl
      simp only [hiff]

/-- A contraction of a link, under a name that no link ends at. -/
structure Contracts (G : Graph ω) (l : Link) (k : VertexId) : Prop where
  canonical : G.Canonical
  normal : compare l.src l.dst = .lt
  notSrc : k ≠ l.src
  notDst : k ≠ l.dst
  unlinked : ∀ z, G.distance? k z = none

section Contraction

variable {x y : Cluster ω} {w : ω}

theorem Contracts.get?_relinks (h : G.Contracts l k) (hsrc : l.src ≠ v) (hdst : l.dst ≠ v) :
    SortedMap.get? (G.relinks l w) v = linkage (G.distance? l.src v) (G.distance? l.dst v) w := by
  rw [h.canonical.get?_relinks, if_neg hsrc, if_neg hdst]

theorem Contracts.distance?_linked (h : G.Contracts l k) (hz : k ≠ z) :
    ((G.adjoin k x y w).linkAll k (G.relinks l w).toList).distance? k z =
      SortedMap.get? (G.relinks l w) z := by
  have hnone : (G.adjoin k x y w).distance? k z = none := h.unlinked z
  rw [distance?_linkAll _ (G.relinks l w).keys_distinct hz, SortedMap.get?_ofList_toList, hnone,
    Option.or_none]

/-- Until it is unlinked, an end keeps its links. -/
theorem Contracts.distance?_linked_end (h : G.Contracts l k) (hv : v = l.src ∨ v = l.dst)
    (b : VertexId) :
    ((G.adjoin k x y w).linkAll k (G.relinks l w).toList).distance? v b = G.distance? v b := by
  have hvk : v ≠ k := by
    rcases hv with rfl | rfl
    · exact h.notSrc.symm
    · exact h.notDst.symm
  by_cases hb : b = k
  · subst hb
    rw [distance?_comm, h.distance?_linked hvk.symm, h.canonical.get?_relinks_end hv, distance?_comm,
      h.unlinked]
  · exact distance?_linkAll_of_ne _ _ hvk hb

theorem distance?_contract (h : G.Contracts l k) (a b : VertexId) :
    (G.contract l w x y k).distance? a b =
      if a = l.src ∧ b = l.dst ∨ a = l.dst ∧ b = l.src then none
      else if a = l.dst ∧ b ∈ SortedMap.keys ((G.neighbors l.dst).erase l.src) ∨
          b = l.dst ∧ a ∈ SortedMap.keys ((G.neighbors l.dst).erase l.src) then none
      else if a = l.src ∧ b ∈ SortedMap.keys ((G.neighbors l.src).erase l.dst) ∨
          b = l.src ∧ a ∈ SortedMap.keys ((G.neighbors l.src).erase l.dst) then none
      else ((G.adjoin k x y w).linkAll k (G.relinks l w).toList).distance? a b := by
  have hedges (H : Graph ω) (u v : VertexId) :
      ((H.retire u).retire v).distance? a b = H.distance? a b := rfl
  rw [contract, hedges, distance?_eraseLink (Link.between?_ends h.normal), distance?_unlinkAll,
    distance?_unlinkAll]

theorem Contracts.distance?_end (h : G.Contracts l k) (hv : v = l.src ∨ v = l.dst)
    (b : VertexId) : (G.contract l w x y k).distance? v b = none := by
  -- What was linked to an end is among its former neighbours, and each of those is unlinked.
  have hlinked (s o : VertexId) (hb : b ≠ o) :
      b ∈ SortedMap.keys ((G.neighbors s).erase o) ↔ (G.distance? s b).isSome = true := by
    rw [SortedMap.mem_keys, SortedMap.get?_erase, if_neg hb.symm, h.canonical.get?_neighbors]
  have hend := h.distance?_linked_end (x := x) (y := y) (w := w) hv b
  rw [distance?_contract h, hend]
  rcases hv with rfl | rfl
  · by_cases hb : b = l.dst
    · rw [if_pos (.inl ⟨rfl, hb⟩)]
    · cases hsrc : G.distance? l.src b with
      | none => simp
      | some w' =>
        have hmem := (hlinked l.src l.dst hb).mpr (by rw [hsrc]; rfl)
        simp [hmem]
  · by_cases hb : b = l.src
    · rw [if_pos (.inr ⟨rfl, hb⟩)]
    · cases hdst : G.distance? l.dst b with
      | none => simp
      | some w' =>
        have hmem := (hlinked l.dst l.src hb).mpr (by rw [hdst]; rfl)
        simp [hmem]

/-- The union lies from any other vertex at the linkage of the distances of its parts. -/
theorem Contracts.distance?_union (h : G.Contracts l k) (hk : k ≠ v) (hsrc : l.src ≠ v)
    (hdst : l.dst ≠ v) : (G.contract l w x y k).distance? k v =
      linkage (G.distance? l.src v) (G.distance? l.dst v) w := by
  rw [distance?_contract h, h.distance?_linked hk, h.get?_relinks hsrc hdst]
  simp [h.notSrc, h.notDst, hsrc.symm, hdst.symm]

theorem Contracts.distance?_other (h : G.Contracts l k) (hak : a ≠ k) (hbk : b ≠ k)
    (ha : a ≠ l.src ∧ a ≠ l.dst) (hb : b ≠ l.src ∧ b ≠ l.dst) :
    (G.contract l w x y k).distance? a b = G.distance? a b := by
  rw [distance?_contract h, distance?_linkAll_of_ne _ _ hak hbk]
  simp only [ha.1, ha.2, hb.1, hb.2, false_and, or_self, if_false]
  rfl

/-- A link after the contraction leads to the union, or it is an old one away from the ends. -/
theorem Contracts.distance?_eq_some (h : G.Contracts l k) {w' : ω}
    (hw : (G.contract l w x y k).distance? a b = some w') :
    (a ≠ l.src ∧ a ≠ l.dst) ∧ (b ≠ l.src ∧ b ≠ l.dst) ∧
      (a = k ∧ b ≠ k ∧ linkage (G.distance? l.src b) (G.distance? l.dst b) w = some w' ∨
        a ≠ k ∧ b = k ∧ linkage (G.distance? l.src a) (G.distance? l.dst a) w = some w' ∨
        a ≠ k ∧ b ≠ k ∧ G.distance? a b = some w') := by
  -- The parts have lost all links, so neither end is one of them.
  have hends (u v : VertexId) (huv : (G.contract l w x y k).distance? u v = some w') :
      u ≠ l.src ∧ u ≠ l.dst := by
    constructor
    · intro hu
      rw [h.distance?_end (.inl hu)] at huv
      cases huv
    · intro hu
      rw [h.distance?_end (.inr hu)] at huv
      cases huv
  have hw' := hw
  rw [distance?_comm] at hw'
  have ha := hends a b hw
  have hb := hends b a hw'
  refine ⟨ha, hb, ?_⟩
  by_cases hak : a = k
  · subst hak
    have hba : b ≠ a := by
      intro hba
      rw [hba, distance?_self] at hw
      cases hw
    rw [h.distance?_union hba.symm hb.1.symm hb.2.symm] at hw
    exact .inl ⟨rfl, hba, hw⟩
  · by_cases hbk : b = k
    · subst hbk
      rw [h.distance?_union (Ne.symm hak) ha.1.symm ha.2.symm] at hw'
      exact .inr (.inl ⟨hak, rfl, hw'⟩)
    · rw [h.distance?_other hak hbk ha hb] at hw
      exact .inr (.inr ⟨hak, hbk, hw⟩)

end Contraction

end RecordLinkage.Graph
