import RecordLinkage.Proofs.Sorted.Ext
import RecordLinkage.Proofs.Graph.Coherent
import RecordLinkage.Proofs.Store.Vertices

namespace RecordLinkage

namespace EdgeIndex

theorem insert_insert {κ : Type} [SortKey κ] (s : SortedSet κ) (a : κ) :
    (s.insert a).insert a = s.insert a := by
  apply SortedBy.ext_mem
  intro x
  simp only [SortedSet.mem_insert]
  tauto

theorem insert_comm {κ : Type} [SortKey κ] (s : SortedSet κ) (a b : κ) :
    (s.insert a).insert b = (s.insert b).insert a := by
  apply SortedBy.ext_mem
  intro x
  simp only [SortedSet.mem_insert]
  tauto

variable (m : SortedMap VertexId (SortedSet VertexId)) (a b c d : VertexId)

theorem join_join : join (join m a b) a b = join m a b := by
  apply SortedMap.ext_get?
  intro v
  simp only [join, SortedMap.get?_alter]
  split
  · simp [insert_insert]
  · rfl

theorem join_comm : join (join m a b) c d = join (join m c d) a b := by
  apply SortedMap.ext_get?
  intro v
  simp only [join, SortedMap.get?_alter]
  by_cases hac : a = c
  · subst hac
    split
    · simp [insert_comm]
    · rfl
  · have hca : c ≠ a := Ne.symm hac
    simp only [if_neg hac, if_neg hca]
    by_cases hv : c = v
    · subst hv
      simp [hac]
    · simp [hv]

theorem erase_erase_comm {κ : Type} [SortKey κ] (s : SortedSet κ) (a b : κ) :
    (s.erase a).erase b = (s.erase b).erase a := by
  apply SortedBy.ext_mem
  intro x
  simp only [SortedSet.mem_erase]
  tauto

/-- Dropping a set that became empty does not matter to what is removed next. -/
theorem trim_trim {κ : Type} [SortKey κ] (s : SortedSet κ) (a b : κ) :
    (if (s.erase a).isEmpty then none else some (s.erase a)).bind
        (fun s => if (s.erase b).isEmpty then none else some (s.erase b)) =
      if ((s.erase a).erase b).isEmpty then none else some ((s.erase a).erase b) := by
  by_cases hempty : (s.erase a).isEmpty = true
  · have hnothing : ((s.erase a).erase b).isEmpty = true := by
      rw [SortedBy.isEmpty, List.isEmpty_iff] at hempty ⊢
      refine List.eq_nil_iff_forall_not_mem.mpr fun x hx => ?_
      have hx' := (SortedSet.mem_erase.mp hx).1
      rw [SortedBy.mem_def, hempty] at hx'
      cases hx'
    rw [if_pos hempty, if_pos hnothing, Option.bind_none]
  · rw [if_neg hempty, Option.bind_some]

theorem part_comm : part (part m a b) c d = part (part m c d) a b := by
  apply SortedMap.ext_get?
  intro v
  simp only [part, SortedMap.get?_alter]
  by_cases hac : a = c
  · subst hac
    split
    · cases SortedMap.get? m a with
      | none => simp only [if_true, Option.bind_none]
      | some s =>
        simp only [if_true, Option.bind_some]
        rw [trim_trim, trim_trim, erase_erase_comm]
    · rfl
  · have hca : c ≠ a := Ne.symm hac
    simp only [if_neg hac, if_neg hca]
    by_cases hv : c = v
    · subst hv
      simp [hac]
    · simp [hv]

variable {ω : Type} [Weight ω]

theorem mem_unweigh {s : SortedSet (ω × Link)} {l : Link} {old : Option ω} {p : ω × Link} :
    p ∈ unweigh s l old ↔ p ∈ s ∧ ∀ w, old = some w → p ≠ (w, l) := by
  cases old with
  | none => simp [unweigh]
  | some w => simp [unweigh, SortedSet.mem_erase]

theorem eq_of_parts {x y : EdgeIndex ω} (hweights : x.weights = y.weights)
    (hbyWeight : x.byWeight = y.byWeight) (houtgoing : x.outgoing = y.outgoing)
    (hincoming : x.incoming = y.incoming) : x = y := by
  cases x
  cases y
  cases hweights
  cases hbyWeight
  cases houtgoing
  cases hincoming
  rfl

/-- Links are removed in either order. -/
theorem erase_comm (x : EdgeIndex ω) (l l' : Link) :
    (x.erase l).erase l' = (x.erase l').erase l := by
  by_cases hl : l = l'
  · rw [hl]
  have hkept : (x.erase l).weight? l' = x.weight? l' := by rw [weight?_erase, if_neg hl]
  have hkept' : (x.erase l').weight? l = x.weight? l := by rw [weight?_erase, if_neg (Ne.symm hl)]
  cases hw : x.weight? l with
  | none => rw [erase_eq_self_iff.mpr hw, erase_eq_self_iff.mpr (hkept'.trans hw)]
  | some w =>
    cases hw' : x.weight? l' with
    | none => rw [erase_eq_self_iff.mpr hw', erase_eq_self_iff.mpr (hkept.trans hw')]
    | some w' =>
      have hleft : (x.erase l).erase l' =
          ⟨(x.weights.erase l).erase l', (x.byWeight.erase (w, l)).erase (w', l'),
            part (part x.outgoing l.src l.dst) l'.src l'.dst,
            part (part x.incoming l.dst l.src) l'.dst l'.src⟩ := by
        rw [erase, hkept, hw', erase, hw]
      have hright : (x.erase l').erase l =
          ⟨(x.weights.erase l').erase l, (x.byWeight.erase (w', l')).erase (w, l),
            part (part x.outgoing l'.src l'.dst) l.src l.dst,
            part (part x.incoming l'.dst l'.src) l.dst l.src⟩ := by
        rw [erase, hkept', hw, erase, hw']
      rw [hleft, hright]
      refine eq_of_parts ?_ (erase_erase_comm _ _ _) (part_comm _ _ _ _ _) (part_comm _ _ _ _ _)
      apply SortedMap.ext_get?
      intro k
      simp only [SortedMap.get?_erase]
      split <;> split <;> rfl

/-- A link that is stored again with its weight stays as it is. -/
theorem put_put (x : EdgeIndex ω) (l : Link) (w : ω) : (x.put l w).put l w = x.put l w := by
  refine eq_of_parts (SortedMap.put_put _ _ _ _) ?_ (join_join _ _ _) (join_join _ _ _)
  apply SortedBy.ext_mem
  intro p
  show p ∈ (unweigh (x.put l w).byWeight l ((x.put l w).weight? l)).insert (w, l) ↔
    p ∈ (unweigh x.byWeight l (x.weight? l)).insert (w, l)
  rw [weight?_put, if_pos rfl]
  show p ∈ (unweigh ((unweigh x.byWeight l (x.weight? l)).insert (w, l)) l (some w)).insert (w, l) ↔ _
  simp only [SortedSet.mem_insert, mem_unweigh, Option.some.injEq]
  constructor
  · rintro (hp | ⟨hp, -⟩)
    · exact .inl hp
    · exact hp
  · intro hp
    by_cases hself : p = (w, l)
    · exact .inl hself
    · exact .inr ⟨hp, fun w' hw' => hw' ▸ hself⟩

theorem put_comm (x : EdgeIndex ω) {l l' : Link} (w w' : ω) (h : l ≠ l') :
    (x.put l w).put l' w' = (x.put l' w').put l w := by
  refine eq_of_parts (SortedMap.put_comm _ _ _ h) ?_ (join_comm _ _ _ _ _) (join_comm _ _ _ _ _)
  apply SortedBy.ext_mem
  intro p
  show p ∈ (unweigh (x.put l w).byWeight l' ((x.put l w).weight? l')).insert (w', l') ↔
    p ∈ (unweigh (x.put l' w').byWeight l ((x.put l' w').weight? l)).insert (w, l)
  rw [weight?_put, if_neg h, weight?_put, if_neg (Ne.symm h)]
  show p ∈ (unweigh ((unweigh x.byWeight l (x.weight? l)).insert (w, l)) l' (x.weight? l')).insert
      (w', l') ↔
    p ∈ (unweigh ((unweigh x.byWeight l' (x.weight? l')).insert (w', l')) l (x.weight? l)).insert (w, l)
  simp only [SortedSet.mem_insert, mem_unweigh]
  -- The old entry of one link is not the new entry of the other.
  have hne (v : ω) : p = (w, l) → p ≠ (v, l') := by
    rintro rfl heq
    exact h (congrArg Prod.snd heq)
  have hne' (v : ω) : p = (w', l') → p ≠ (v, l) := by
    rintro rfl heq
    exact h (congrArg Prod.snd heq).symm
  tauto

end EdgeIndex

variable {ω : Type} [Weight ω]

namespace Graph

theorem eq_of_parts {G G' : Graph ω} (hclusters : G.clusters = G'.clusters)
    (hretired : G.retired = G'.retired) (hedges : G.edges = G'.edges) : G = G' := by
  cases G
  cases G'
  cases hclusters
  cases hretired
  cases hedges
  rfl

theorem ensure_ensure (G : Graph ω) (v : VertexId) (e : EntityKey) :
    (G.ensure v e).ensure v e = G.ensure v e := by
  rw [ensure, if_pos]
  exact (taken_ensure G v e v).mpr (.inr rfl)

/-- Vertices can be made sure of in either order, unless two entities want the same one. -/
theorem ensure_comm (G : Graph ω) {v v' : VertexId} {e e' : EntityKey} (h : v = v' → e = e') :
    (G.ensure v e).ensure v' e' = (G.ensure v' e').ensure v e := by
  by_cases hv : v = v'
  · subst hv
    rw [h rfl]
  · have hkept : (G.ensure v e).taken v' = G.taken v' := by
      rw [Bool.eq_iff_iff, taken_ensure]
      exact or_iff_left (Ne.symm hv)
    have hkept' : (G.ensure v' e').taken v = G.taken v := by
      rw [Bool.eq_iff_iff, taken_ensure]
      exact or_iff_left hv
    have hclusters : ((G.ensure v e).ensure v' e').clusters = ((G.ensure v' e').ensure v e).clusters := by
      apply SortedMap.ext_get?
      intro u
      show ((G.ensure v e).ensure v' e').cluster? u = ((G.ensure v' e').ensure v e).cluster? u
      simp only [cluster?_ensure, hkept, hkept']
      by_cases hu : v = u
      · have hu' : v' ≠ u := fun heq => hv (hu.trans heq.symm)
        simp [hu']
      · simp [hu]
    refine eq_of_parts hclusters ?_ ?_
    · simp only [retired_ensure]
    · simp only [edges_ensure]

theorem putLink_ensure (G : Graph ω) (v : VertexId) (e : EntityKey) (l : Link) (w : ω) :
    (G.ensure v e).putLink l w = (G.putLink l w).ensure v e := by
  have htaken : (G.putLink l w).taken v = G.taken v := rfl
  rw [ensure, ensure, htaken]
  split <;> rfl

end Graph

end RecordLinkage
