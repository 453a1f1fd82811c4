import RecordLinkage.Proofs.Graph.Sound

namespace RecordLinkage.Graph

variable {ω : Type} [Weight ω] {G G' : Graph ω} {u v z k : VertexId} {l : Link} {w : ω}
  {x y : Cluster ω}

/-- Links are in normal form and join live vertices. -/
structure Anchored (G : Graph ω) : Prop extends G.Canonical where
  live : ∀ l w, G.edges.weight? l = some w → G.live l.src = true ∧ G.live l.dst = true

/-- What a graph is like between two operations: no link has lost an end, every weight is one that
is accepted, and what was retired stays away. -/
structure Intact (G : Graph ω) : Prop extends G.Anchored where
  storable : ∀ l w, G.edges.weight? l = some w → Weight.storable w = true
  apart : ∀ v, v ∈ G.retired → G.live v = false

theorem Anchored.live_of_distance? (h : G.Anchored) (hw : G.distance? u v = some w) :
    G.live u = true := by
  obtain ⟨l, hl, hweight⟩ := Option.bind_eq_some_iff.mp hw
  obtain ⟨hsrc, hdst⟩ := h.live l w hweight
  rcases (Link.between?_spec hl).2 with ⟨rfl, rfl⟩ | ⟨rfl, rfl⟩
  · exact hsrc
  · exact hdst

theorem Anchored.distance?_of_gone (h : G.Anchored) (hu : G.cluster? u = none) :
    G.distance? u v = none := by
  refine Option.eq_none_iff_forall_ne_some.mpr fun w hw => ?_
  obtain ⟨x, hx⟩ := live_iff.mp (h.live_of_distance? hw)
  cases hu.symm.trans hx

/-- What is true of the distances between live vertices of two graphs is true of all distances. -/
theorem Anchored.compare_distances (h : G.Anchored) (h' : G'.Anchored) {f : VertexId → VertexId}
    {R : Option ω → Option ω → Prop} (hlive : ∀ v, G'.live (f v) = G.live v) (hnone : R none none)
    (hall : ∀ u v, G.live u = true → G.live v = true →
      R (G.distance? u v) (G'.distance? (f u) (f v))) (u v : VertexId) :
    R (G.distance? u v) (G'.distance? (f u) (f v)) := by
  have hgone (v : VertexId) (hv : G.live v = false) :
      G.cluster? v = none ∧ G'.cluster? (f v) = none := by
    have hv' := (hlive v).trans hv
    rw [live_eq_isSome, Option.isSome_eq_false_iff, Option.isNone_iff_eq_none] at hv hv'
    exact ⟨hv, hv'⟩
  cases hu : G.live u with
  | false =>
    obtain ⟨hu, hu'⟩ := hgone u hu
    rwa [h.distance?_of_gone hu, h'.distance?_of_gone hu']
  | true =>
    cases hv : G.live v with
    | false =>
      obtain ⟨hv, hv'⟩ := hgone v hv
      rwa [distance?_comm, h.distance?_of_gone hv, distance?_comm, h'.distance?_of_gone hv']
    | true => exact hall u v hu hv

theorem Anchored.congr (h : G.Anchored) (he : G'.edges = G.edges)
    (hlive : ∀ v, G.live v = true → G'.live v = true) : G'.Anchored := by
  refine ⟨h.toCanonical.congr he, fun l w hw => ?_⟩
  rw [he] at hw
  exact (h.live l w hw).imp (hlive _) (hlive _)

theorem ne_of_not_taken (hfree : G.taken k = false) (hv : G.live v = true) : k ≠ v := by
  rintro rfl
  rw [taken, hv] at hfree
  cases hfree

theorem Anchored.contracts (h : G.Anchored) (hl : G.edges.weight? l = some w)
    (hfree : G.taken k = false) : G.Contracts l k := by
  obtain ⟨hsrc, hdst⟩ := h.live l w hl
  refine ⟨h.toCanonical, h.normal l w hl, ne_of_not_taken hfree hsrc, ne_of_not_taken hfree hdst, ?_⟩
  intro z
  apply Option.eq_none_iff_forall_ne_some.mpr
  intro w' hw'
  exact ne_of_not_taken hfree (h.live_of_distance? hw') rfl

theorem Anchored.two_le_size (h : G.Anchored) (hl : G.edges.weight? l = some w) :
    2 ≤ G.clusters.size := by
  obtain ⟨hsrc, hdst⟩ := h.live l w hl
  rw [live_eq_isSome] at hsrc hdst
  have hne : l.src ≠ l.dst := SortKey.ne_of_lt (h.normal l w hl)
  rw [← SortedMap.card_domain, Nat.succ_le_iff, Finset.one_lt_card]
  exact ⟨l.src, SortedMap.mem_domain.mpr hsrc, l.dst, SortedMap.mem_domain.mpr hdst, hne⟩

theorem live_contract_iff (hsrc : G.cluster? l.src = some x) (hdst : G.cluster? l.dst = some y)
    (hfree : G.taken k = false) : (G.contract l w x y k).live u = true ↔
      u = k ∨ u ≠ k ∧ u ≠ l.src ∧ u ≠ l.dst ∧ G.live u = true := by
  rw [live_iff, live_iff]
  simp only [cluster?_contract_iff hsrc hdst hfree, exists_or, exists_and_left]
  simp

/-- What the union is linked to was linked to one of its parts. -/
theorem Anchored.live_of_linkage (h : G.Anchored) {w' : ω}
    (hw : linkage (G.distance? u v) (G.distance? z v) w = some w') : G.live v = true := by
  cases ha : G.distance? u v with
  | some a => exact h.live_of_distance? ((distance?_comm ..).trans ha)
  | none =>
    cases hb : G.distance? z v with
    | some b => exact h.live_of_distance? ((distance?_comm ..).trans hb)
    | none =>
      rw [ha, hb] at hw
      cases hw

theorem Anchored.contract (h : G.Anchored) (hl : G.edges.weight? l = some w)
    (hsrc : G.cluster? l.src = some x) (hdst : G.cluster? l.dst = some y)
    (hfree : G.taken k = false) : (G.contract l w x y k).Anchored := by
  have hc := h.contracts hl hfree
  have hlive (a b : VertexId) (w' : ω) (hw' : (G.contract l w x y k).distance? a b = some w') :
      (G.contract l w x y k).live a = true := by
    rw [live_contract_iff hsrc hdst hfree]
    obtain ⟨ha, -, hcase⟩ := hc.distance?_eq_some hw'
    rcases hcase with ⟨hk, -, -⟩ | ⟨hk, -, hlinkage⟩ | ⟨hk, -, hold⟩
    · exact .inl hk
    · exact .inr ⟨hk, ha.1, ha.2, h.live_of_linkage hlinkage⟩
    · exact .inr ⟨hk, ha.1, ha.2, h.live_of_distance? hold⟩
  have hcanonical := h.toCanonical.contract l w x y k
  refine ⟨hcanonical, fun l' w' hw' => ?_⟩
  have hends := hcanonical.distance?_ends hw'
  exact ⟨hlive _ _ w' hends, hlive _ _ w' ((distance?_comm ..).trans hends)⟩

theorem live_ensure (e : EntityKey) (hv : G.live v = true) : (G.ensure u e).live v = true := by
  obtain ⟨c, hc⟩ := live_iff.mp hv
  rw [live_iff]
  by_cases hu : G.taken u = false ∧ u = v
  · exact ⟨_, by rw [cluster?_ensure, if_pos hu]⟩
  · exact ⟨c, by rw [cluster?_ensure, if_neg hu, hc]⟩

namespace Intact

theorem sound (h : G.Intact) : G.edges.Sound := ⟨h.coherent, h.storable⟩

theorem empty : (∅ : Graph ω).Intact := ⟨⟨.empty, nofun⟩, nofun, nofun⟩

theorem ensure (h : G.Intact) (u : VertexId) (e : EntityKey) : (G.ensure u e).Intact := by
  refine ⟨h.toAnchored.congr (edges_ensure G u e) fun v => live_ensure e, ?_, ?_⟩
  · intro l w hw
    rw [edges_ensure] at hw
    exact h.storable l w hw
  · intro v hv
    rw [retired_ensure] at hv
    have hdead := h.apart v hv
    rw [live_eq_isSome] at hdead ⊢
    rw [cluster?_ensure]
    split
    · -- A retired vertex is taken, so it is not made again.
      rename_i hnew
      rw [taken_iff.mpr (.inr (hnew.2 ▸ hv))] at hnew
      cases hnew.1
    · exact hdead

theorem putLink (h : G.Intact) (hl : compare l.src l.dst = .lt) (hw : Weight.storable w = true)
    (hsrc : G.live l.src = true) (hdst : G.live l.dst = true) : (G.putLink l w).Intact := by
  refine ⟨⟨h.toCanonical.putLink hl w, ?_⟩, (h.sound.put l hw).storable, h.apart⟩
  exact EdgeIndex.forall_weight?_put h.live ⟨hsrc, hdst⟩

theorem eraseLink (h : G.Intact) (l : Link) : (G.eraseLink l).Intact := by
  refine ⟨⟨h.toCanonical.eraseLink l, ?_⟩, (h.sound.erase l).storable, h.apart⟩
  exact EdgeIndex.forall_weight?_erase h.live

theorem contract (h : G.Intact) (hl : G.edges.weight? l = some w)
    (hsrc : G.cluster? l.src = some x) (hdst : G.cluster? l.dst = some y)
    (hfree : G.taken k = false)
    (hstorable : ∀ p ∈ (G.relinks l w).toList, Weight.storable p.2 = true) :
    (G.contract l w x y k).Intact := by
  refine ⟨h.toAnchored.contract hl hsrc hdst hfree, (sound_contract h.sound hstorable).storable, ?_⟩
  intro v hv
  rw [mem_retired_contract] at hv
  rw [← Bool.not_eq_true, live_contract_iff hsrc hdst hfree]
  rintro (rfl | ⟨-, hvs, hvd, hlive⟩)
  · -- The union is new, so it is neither a part nor retired.
    rcases hv with hv | hv | hv
    · exact ne_of_not_taken hfree (live_iff.mpr ⟨y, hdst⟩) hv
    · exact ne_of_not_taken hfree (live_iff.mpr ⟨x, hsrc⟩) hv
    · rw [taken_iff.mpr (.inr hv)] at hfree
      cases hfree
  · rcases hv with hv | hv | hv
    · exact hvd hv
    · exact hvs hv
    · rw [h.apart v hv] at hlive
      cases hlive

end Intact

end RecordLinkage.Graph

namespace RecordLinkage.Memory

variable {ω : Type} [Weight ω] {g : GraphId} {G : Graph ω}

def ofGraph (g : GraphId) (G : Graph ω) : Memory ω := ⟨(∅ : Store ω).setGraph g G, ⟨[], 0⟩⟩

@[simp] theorem graph_ofGraph (g : GraphId) (G : Graph ω) : (ofGraph g G).store.graph g = G := by
  rw [ofGraph, Store.graph_setGraph, if_pos rfl]

theorem anchored_ofGraph (h : G.Intact) : ((ofGraph g G).store.graph g).Anchored := by
  rw [graph_ofGraph]
  exact h.toAnchored

theorem sound_ofGraph (h : G.Intact) : (ofGraph g G).Sound := by
  intro g'
  rw [ofGraph, Store.graph_setGraph]
  split
  · exact h.sound
  · exact .empty

end RecordLinkage.Memory
