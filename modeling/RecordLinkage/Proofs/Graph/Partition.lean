import RecordLinkage.Proofs.Drain.Step

namespace RecordLinkage

variable {ω : Type} [Weight ω]

/-- The live vertices share entities out among them: each has some, and each entity belongs to one
vertex. -/
structure Graph.Partitions (G : Graph ω) (entities : EntityKey → Prop) : Prop where
  nonempty : ∀ v c, G.cluster? v = some c → ∃ e, e ∈ c.members
  disjoint : ∀ u v c d, u ≠ v → G.cluster? u = some c → G.cluster? v = some d →
    ∀ e, e ∈ c.members → ¬ e ∈ d.members
  covers : ∀ e, (∃ v c, G.cluster? v = some c ∧ e ∈ c.members) ↔ entities e

namespace Cluster

omit [Weight ω] in
theorem mem_merged {a b : Cluster ω} {w : ω} {e : EntityKey} :
    e ∈ (merged a b w).members ↔ e ∈ a.members ∨ e ∈ b.members := SortedSet.mem_union

theorem mem_singleton {e e' : EntityKey} :
    e ∈ (singleton e' : Cluster ω).members ↔ e = e' := by
  rw [singleton, SortedSet.mem_ofList, List.mem_singleton]

end Cluster

namespace Graph

variable {G : Graph ω} {entities : EntityKey → Prop}

theorem Partitions.congr {G' : Graph ω} (h : G.Partitions entities)
    (hc : ∀ v, G'.cluster? v = G.cluster? v) : G'.Partitions entities where
  nonempty v c hv := h.nonempty v c (hc v ▸ hv)
  disjoint u v c d huv hu hv := h.disjoint u v c d huv (hc u ▸ hu) (hc v ▸ hv)
  covers e := by
    simp only [hc]
    exact h.covers e

theorem Partitions.ensure (h : G.Partitions entities) {v : VertexId} {e : EntityKey}
    (hfree : G.taken v = false) (he : ¬ entities e) :
    (G.ensure v e).Partitions fun e' => entities e' ∨ e' = e := by
  have hold (u : VertexId) (hu : v ≠ u) : (G.ensure v e).cluster? u = G.cluster? u := by
    rw [cluster?_ensure, if_neg (fun hn => hu hn.2)]
  have hnew : (G.ensure v e).cluster? v = some (.singleton e) := by
    rw [cluster?_ensure, if_pos ⟨hfree, rfl⟩]
  have hnone := cluster?_of_not_taken hfree
  -- The new entity is nobody's yet.
  have hapart (u : VertexId) (c : Cluster ω) (hu : G.cluster? u = some c) : ¬ e ∈ c.members :=
    fun hm => he ((h.covers e).mp ⟨u, c, hu, hm⟩)
  constructor
  · intro u c hu
    by_cases hvu : v = u
    · subst hvu
      cases hnew.symm.trans hu
      exact ⟨e, Cluster.mem_singleton.mpr rfl⟩
    · exact h.nonempty u c (hold u hvu ▸ hu)
  · intro u u' c d huu' hu hu' x hx hx'
    by_cases hvu : v = u
    · subst hvu
      cases hnew.symm.trans hu
      rw [Cluster.mem_singleton] at hx
      subst hx
      exact hapart u' d (hold u' huu' ▸ hu') hx'
    · by_cases hvu' : v = u'
      · subst hvu'
        cases hnew.symm.trans hu'
        rw [Cluster.mem_singleton] at hx'
        subst hx'
        exact hapart u c (hold u hvu ▸ hu) hx
      · exact h.disjoint u u' c d huu' (hold u hvu ▸ hu) (hold u' hvu' ▸ hu') x hx hx'
  · intro x
    constructor
    · intro hx
      obtain ⟨u, c, hu, hm⟩ := hx
      by_cases hvu : v = u
      · subst hvu
        cases hnew.symm.trans hu
        exact .inr (Cluster.mem_singleton.mp hm)
      · exact .inl ((h.covers x).mp ⟨u, c, hold u hvu ▸ hu, hm⟩)
    · intro hx
      rcases hx with hx | rfl
      · obtain ⟨u, c, hu, hm⟩ := (h.covers x).mpr hx
        have hvu : v ≠ u := by
          intro e
          rw [← e, hnone] at hu
          cases hu
        exact ⟨u, c, (hold u hvu).trans hu, hm⟩
      · exact ⟨v, _, hnew, Cluster.mem_singleton.mpr rfl⟩

theorem Partitions.contract (h : G.Partitions entities) {l : Link} {w : ω} {x y : Cluster ω}
    {k : VertexId} (hsrc : G.cluster? l.src = some x) (hdst : G.cluster? l.dst = some y)
    (hfree : G.taken k = false) : (G.contract l w x y k).Partitions entities := by
  have hcases (u : VertexId) (c : Cluster ω) :=
    cluster?_contract_iff (w := w) (u := u) (c := c) hsrc hdst hfree
  -- The union holds nothing but the members of its parts.
  have hapart (u : VertexId) (c : Cluster ω) (hus : u ≠ l.src) (hud : u ≠ l.dst)
      (hu : G.cluster? u = some c) (e : EntityKey) (he : e ∈ c.members) :
      ¬ e ∈ (Cluster.merged x y w).members := by
    rw [Cluster.mem_merged]
    intro hm
    rcases hm with hm | hm
    · exact h.disjoint u l.src c x hus hu hsrc e he hm
    · exact h.disjoint u l.dst c y hud hu hdst e he hm
  constructor
  · intro u c hu
    rcases (hcases u c).mp hu with ⟨rfl, rfl⟩ | ⟨-, -, -, hold⟩
    · obtain ⟨e, he⟩ := h.nonempty l.src x hsrc
      exact ⟨e, Cluster.mem_merged.mpr (.inl he)⟩
    · exact h.nonempty u c hold
  · intro u v c d huv hu hv e hc hd
    rcases (hcases u c).mp hu with ⟨rfl, rfl⟩ | ⟨-, hus, hud, hu'⟩ <;>
      rcases (hcases v d).mp hv with ⟨hvk, rfl⟩ | ⟨-, hvs, hvd, hv'⟩
    · exact huv hvk.symm
    · exact hapart v d hvs hvd hv' e hd hc
    · exact hapart u c hus hud hu' e hc hd
    · exact h.disjoint u v c d huv hu' hv' e hc hd
  · intro e
    rw [← h.covers e]
    constructor
    · intro he
      obtain ⟨u, c, hu, hm⟩ := he
      rcases (hcases u c).mp hu with ⟨rfl, rfl⟩ | ⟨-, -, -, hold⟩
      · rcases Cluster.mem_merged.mp hm with hm | hm
        · exact ⟨l.src, x, hsrc, hm⟩
        · exact ⟨l.dst, y, hdst, hm⟩
      · exact ⟨u, c, hold, hm⟩
    · intro he
      obtain ⟨u, c, hu, hm⟩ := he
      by_cases hus : u = l.src
      · subst hus
        cases hsrc.symm.trans hu
        exact ⟨k, _, (hcases k _).mpr (.inl ⟨rfl, rfl⟩), Cluster.mem_merged.mpr (.inl hm)⟩
      · by_cases hud : u = l.dst
        · subst hud
          cases hdst.symm.trans hu
          exact ⟨k, _, (hcases k _).mpr (.inl ⟨rfl, rfl⟩), Cluster.mem_merged.mpr (.inr hm)⟩
        · have huk : u ≠ k := by
            intro huk
            rw [huk, cluster?_of_not_taken hfree] at hu
            cases hu
          exact ⟨u, c, (hcases u c).mpr (.inr ⟨huk, hus, hud, hu⟩), hm⟩

/-- A step of a drain that succeeds shares the same entities out. -/
theorem Partitions.step {m m' : Memory ω} {g : GraphId} {t : ω} {s : Step ω}
    (h : (m.store.graph g).Partitions entities) (hs : Drain.Stepped m g t s m') :
    (m'.store.graph g).Partitions entities := by
  apply hs.preserves (P := fun G => G.Partitions entities)
  · exact fun G l hG => hG.congr fun v => rfl
  · exact fun G l w x y k hsrc hdst hfree _ hG => hG.contract hsrc hdst hfree
  · exact h

end Graph

end RecordLinkage
