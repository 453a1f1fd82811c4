import RecordLinkage.Proofs.Drain.Run
import RecordLinkage.Proofs.Graph.Complete
import RecordLinkage.Proofs.Graph.Partition
import RecordLinkage.Proofs.Weight.Laws
import Mathlib.Logic.Relation

namespace RecordLinkage

variable {ω : Type} [Weight ω]

namespace Cluster

/-- A weight between two clusters lies between the distances of two of their entities. -/
structure Spans (d : EntityKey → EntityKey → Option ω) (c e : Cluster ω) (w : ω) : Prop where
  below : ∃ x y s, x ∈ c.members ∧ y ∈ e.members ∧ d x y = some s ∧ Weight.le s w
  above : ∃ x y s, x ∈ c.members ∧ y ∈ e.members ∧ d x y = some s ∧ Weight.le w s

def Near (d : EntityKey → EntityKey → Option ω) (t : ω) (c : Cluster ω) (x y : EntityKey) : Prop :=
  x ∈ c.members ∧ y ∈ c.members ∧ ∃ s, d x y = some s ∧ Weight.lt s t = true

/-- Any two members of a cluster are joined by a chain of near members. -/
def Chained (d : EntityKey → EntityKey → Option ω) (t : ω) (c : Cluster ω) : Prop :=
  ∀ x y, x ∈ c.members → y ∈ c.members → Relation.ReflTransGen (c.Near d t) x y

variable {d : EntityKey → EntityKey → Option ω} {t w : ω} {a b c : Cluster ω}

theorem Spans.symm (hd : ∀ x y, d x y = d y x) (h : Spans d a b w) : Spans d b a w := by
  obtain ⟨⟨x, y, s, hx, hy, hs, hle⟩, x', y', s', hx', hy', hs', hle'⟩ := h
  exact ⟨⟨y, x, s, hy, hx, (hd y x).trans hs, hle⟩, y', x', s', hy', hx', (hd y' x').trans hs', hle'⟩

theorem Spans.merged {u v w' : ω} (hu : Weight.Number u) (hv : Weight.Number v)
    (ha : Spans d a c u) (hb : Spans d b c v) (hlow : Weight.le u w' ∨ Weight.le v w')
    (hhigh : Weight.le w' u ∨ Weight.le w' v) [LawfulWeight ω] :
    Spans d (merged a b w) c w' := by
  constructor
  · rcases hlow with hle | hle
    · obtain ⟨x, y, s, hx, hy, hs, hsu⟩ := ha.below
      exact ⟨x, y, s, mem_merged.mpr (.inl hx), hy, hs, Weight.le_trans hu hsu hle⟩
    · obtain ⟨x, y, s, hx, hy, hs, hsv⟩ := hb.below
      exact ⟨x, y, s, mem_merged.mpr (.inr hx), hy, hs, Weight.le_trans hv hsv hle⟩
  · rcases hhigh with hle | hle
    · obtain ⟨x, y, s, hx, hy, hs, hus⟩ := ha.above
      exact ⟨x, y, s, mem_merged.mpr (.inl hx), hy, hs, Weight.le_trans hu hle hus⟩
    · obtain ⟨x, y, s, hx, hy, hs, hvs⟩ := hb.above
      exact ⟨x, y, s, mem_merged.mpr (.inr hx), hy, hs, Weight.le_trans hv hle hvs⟩

theorem chained_singleton (e : EntityKey) : Chained d t (singleton e) := by
  intro x y hx hy
  rw [mem_singleton] at hx hy
  rw [hx, hy]

theorem Chained.merged (hd : ∀ x y, d x y = d y x) (ha : Chained d t a) (hb : Chained d t b)
    (hspans : Spans d a b w) (hw : Weight.lt w t = true)
    (hstored : ∀ x y s, d x y = some s → Weight.Number s) [LawfulWeight ω] :
    Chained d t (merged a b w) := by
  have hleft {x y : EntityKey} (hx : x ∈ a.members) (hy : y ∈ a.members) :
      Relation.ReflTransGen ((Cluster.merged a b w).Near d t) x y := by
    refine Relation.ReflTransGen.mono ?_ _ _ (ha x y hx hy)
    intro p q hpq
    exact ⟨mem_merged.mpr (.inl hpq.1), mem_merged.mpr (.inl hpq.2.1), hpq.2.2⟩
  have hright {x y : EntityKey} (hx : x ∈ b.members) (hy : y ∈ b.members) :
      Relation.ReflTransGen ((Cluster.merged a b w).Near d t) x y := by
    refine Relation.ReflTransGen.mono ?_ _ _ (hb x y hx hy)
    intro p q hpq
    exact ⟨mem_merged.mpr (.inr hpq.1), mem_merged.mpr (.inr hpq.2.1), hpq.2.2⟩
  -- The entities that are not farther apart than the link that is contracted make the bridge.
  obtain ⟨p, q, s, hp, hq, hs, hsw⟩ := hspans.below
  have hst := Weight.lt_of_le_of_lt (hstored p q s hs) hsw hw
  have hbridge : (Cluster.merged a b w).Near d t p q :=
    ⟨mem_merged.mpr (.inl hp), mem_merged.mpr (.inr hq), s, hs, hst⟩
  have hback : (Cluster.merged a b w).Near d t q p :=
    ⟨mem_merged.mpr (.inr hq), mem_merged.mpr (.inl hp), s, (hd q p).trans hs, hst⟩
  intro x y hx hy
  rcases mem_merged.mp hx with hx | hx <;> rcases mem_merged.mp hy with hy | hy
  · exact hleft hx hy
  · exact ((hleft hx hp).tail hbridge).trans (hright hq hy)
  · exact ((hright hx hq).tail hback).trans (hleft hp hy)
  · exact hright hx hy

end Cluster

namespace Graph

/-- In a complete graph that a drain leads to, links span the clusters that they join, and clusters
are chained. -/
structure Linked (G : Graph ω) (d : EntityKey → EntityKey → Option ω) (t : ω) : Prop
    extends G.Complete where
  spans : ∀ u v c e w, G.cluster? u = some c → G.cluster? v = some e → G.distance? u v = some w →
    Cluster.Spans d c e w
  chained : ∀ v c, G.cluster? v = some c → Cluster.Chained d t c

variable {G : Graph ω} {d : EntityKey → EntityKey → Option ω} {t w : ω} {l : Link}
  {x y : Cluster ω} {k : VertexId}

theorem Linked.contract [LawfulWeight ω] (h : G.Linked d t) (hd : ∀ x y, d x y = d y x)
    (hstored : ∀ x y s, d x y = some s → Weight.Number s) (hl : G.edges.weight? l = some w)
    (hw : Weight.lt w t = true) (hsrc : G.cluster? l.src = some x)
    (hdst : G.cluster? l.dst = some y) (hfree : G.taken k = false)
    (hstorable : ∀ p ∈ (G.relinks l w).toList, Weight.storable p.2 = true) :
    (G.contract l w x y k).Linked d t := by
  have hc := h.contracts hl hfree
  have hweight := h.storable l.src l.dst w (h.distance?_ends hl)
  -- Only the links of the union are new, and they lie between those of its parts.
  have hunion {v : VertexId} {c : Cluster ω} {w' : ω} (hv : G.cluster? v = some c)
      (hvs : v ≠ l.src) (hvd : v ≠ l.dst)
      (hw' : linkage (G.distance? l.src v) (G.distance? l.dst v) w = some w') :
      Cluster.Spans d (.merged x y w) c w' := by
    obtain ⟨a, ha⟩ := h.total l.src v hvs.symm (live_iff.mpr ⟨x, hsrc⟩) (live_iff.mpr ⟨c, hv⟩)
    obtain ⟨b, hb⟩ := h.total l.dst v hvd.symm (live_iff.mpr ⟨y, hdst⟩) (live_iff.mpr ⟨c, hv⟩)
    have sa := h.storable _ _ _ ha
    have sb := h.storable _ _ _ hb
    obtain ⟨w'', hlinkage, hlow, hhigh⟩ := Weight.linkage_between sa sb hweight
    rw [ha, hb, hlinkage] at hw'
    cases hw'
    exact .merged (Weight.number_of_storable sa) (Weight.number_of_storable sb)
      (h.spans _ _ _ _ _ hsrc hv ha) (h.spans _ _ _ _ _ hdst hv hb) hlow hhigh
  have hcluster (v : VertexId) (c : Cluster ω) :=
    cluster?_contract_iff (w := w) (u := v) (c := c) hsrc hdst hfree
  refine ⟨h.toComplete.contract hl hsrc hdst hfree hstorable, ?_, ?_⟩
  · intro u v c e w' hu hv hw'
    obtain ⟨-, -, hcase⟩ := hc.distance?_eq_some hw'
    rcases hcase with ⟨huk, hvk, hlinkage⟩ | ⟨huk, hvk, hlinkage⟩ | ⟨huk, hvk, hold⟩
    · rcases (hcluster u c).mp hu with ⟨-, rfl⟩ | ⟨hne, -⟩
      · rcases (hcluster v e).mp hv with ⟨hvk', -⟩ | ⟨-, hvs, hvd, hv'⟩
        · exact absurd hvk' hvk
        · exact hunion hv' hvs hvd hlinkage
      · exact absurd huk hne
    · rcases (hcluster v e).mp hv with ⟨-, rfl⟩ | ⟨hne, -⟩
      · rcases (hcluster u c).mp hu with ⟨huk', -⟩ | ⟨-, hus, hud, hu'⟩
        · exact absurd huk' huk
        · exact (hunion hu' hus hud hlinkage).symm hd
      · exact absurd hvk hne
    · rcases (hcluster u c).mp hu with ⟨huk', -⟩ | ⟨-, -, -, hu'⟩
      · exact absurd huk' huk
      · rcases (hcluster v e).mp hv with ⟨hvk', -⟩ | ⟨-, -, -, hv'⟩
        · exact absurd hvk' hvk
        · exact h.spans u v c e w' hu' hv' hold
  · intro v c hv
    rcases (hcluster v c).mp hv with ⟨-, rfl⟩ | ⟨-, -, -, hv'⟩
    · exact (h.chained _ _ hsrc).merged hd (h.chained _ _ hdst)
        (h.spans _ _ _ _ _ hsrc hdst (h.distance?_ends hl)) hw hstored
    · exact h.chained v c hv'

/-- Where the lightest link is at or above the threshold, any two clusters hold entities that far
apart. -/
theorem Linked.separated [LawfulWeight ω] (h : G.Linked d t)
    (hreached : ∀ l w, G.edges.lightest? = some (w, l) → Weight.le t w) {u v : VertexId}
    {c e : Cluster ω} (huv : u ≠ v) (hu : G.cluster? u = some c) (hv : G.cluster? v = some e) :
    ∃ x y s, x ∈ c.members ∧ y ∈ e.members ∧ d x y = some s ∧ Weight.lt s t = false := by
  obtain ⟨w', hw'⟩ := h.total u v huv (live_iff.mpr ⟨c, hu⟩) (live_iff.mpr ⟨e, hv⟩)
  obtain ⟨x, y, s, hx, hy, hs, hle⟩ := (h.spans u v c e w' hu hv hw').above
  refine ⟨x, y, s, hx, hy, hs, ?_⟩
  obtain ⟨l', hl'⟩ := Link.exists_between? huv
  have hweight' := hw'
  rw [distance?_of_between? hl'] at hweight'
  cases hlightest : G.edges.lightest? with
  | none =>
    rw [h.coherent.lightest_none hlightest] at hweight'
    cases hweight'
  | some p =>
    obtain ⟨w, l⟩ := p
    have hweight := (h.coherent.lightest hlightest).1
    have hww' := h.coherent.le_of_lightest hlightest hweight'
    have hnumber := Weight.number_of_storable (h.storable _ _ _ (h.distance?_ends hweight))
    have hnumber' := Weight.number_of_storable (h.storable u v w' hw')
    have htw' := Weight.le_trans hnumber (hreached l w hlightest) hww'
    exact Weight.le_trans hnumber' htw' hle

/-- A step of a drain keeps a graph linked. -/
theorem Linked.step [LawfulWeight ω] {g : GraphId} {s : Step ω} {m m' : Memory ω}
    (h : (m.store.graph g).Linked d t) (hd : ∀ x y, d x y = d y x)
    (hstored : ∀ x y s, d x y = some s → Weight.Number s) (hs : Drain.Stepped m g t s m') :
    (m'.store.graph g).Linked d t := by
  cases hs with
  | exhausted => exact h
  | reached => exact h
  | @stale e w _ lightest weight gone becomes =>
    -- No link of a complete graph is stale.
    have hweight := (h.coherent.lightest (Drain.lightest?_edges lightest)).1
    have hends := h.distance?_ends hweight
    have hsrc := h.live _ _ _ hends
    rw [distance?_comm] at hends
    have hdst := h.live _ _ _ hends
    rw [hsrc, hdst] at gone
    simp at gone
  | @merged e w x y k _ lightest weight joins relinks becomes =>
    have hweight := (h.coherent.lightest (Drain.lightest?_edges lightest)).1
    have he := Drain.lightest?_graph lightest
    subst he
    rw [becomes.graph]
    exact h.contract hd hstored hweight weight joins.left joins.right joins.free
      fun p hp => (relinks p hp).1

end Graph

end RecordLinkage
