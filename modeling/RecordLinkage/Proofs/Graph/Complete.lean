import RecordLinkage.Proofs.Graph.Anchored

namespace RecordLinkage.Graph

variable {ω : Type} [Weight ω] {G : Graph ω}

/-- Links join exactly the different live vertices. -/
structure Complete (G : Graph ω) : Prop extends G.Canonical where
  live : ∀ u v w, G.distance? u v = some w → G.live u = true
  total : ∀ u v, u ≠ v → G.live u = true → G.live v = true → ∃ w, G.distance? u v = some w
  storable : ∀ u v w, G.distance? u v = some w → Weight.storable w = true

variable {l : Link} {w : ω} {x y : Cluster ω} {k : VertexId}

theorem Complete.anchored (h : G.Complete) : G.Anchored := by
  refine ⟨h.toCanonical, fun l w hw => ?_⟩
  have hends := h.toCanonical.distance?_ends hw
  exact ⟨h.live _ _ w hends, h.live _ _ w ((distance?_comm ..).trans hends)⟩

theorem Complete.contracts (h : G.Complete) (hl : G.edges.weight? l = some w)
    (hfree : G.taken k = false) : G.Contracts l k := h.anchored.contracts hl hfree

theorem Complete.contract (h : G.Complete) (hl : G.edges.weight? l = some w)
    (hsrc : G.cluster? l.src = some x) (hdst : G.cluster? l.dst = some y)
    (hfree : G.taken k = false)
    (hstorable : ∀ p ∈ (G.relinks l w).toList, Weight.storable p.2 = true) :
    (G.contract l w x y k).Complete := by
  have hc := h.contracts hl hfree
  have hanchored := h.anchored.contract hl hsrc hdst hfree
  have hsound := sound_contract (x := x) (y := y) (k := k) ⟨h.coherent, fun l w hw =>
    h.storable _ _ w (h.toCanonical.distance?_ends hw)⟩ hstorable
  have hunion (v : VertexId) (hv : G.live v = true) (hs : v ≠ l.src) (hd : v ≠ l.dst) :
      ∃ w', (G.contract l w x y k).distance? k v = some w' := by
    obtain ⟨a, ha⟩ := h.total l.src v hs.symm (live_iff.mpr ⟨x, hsrc⟩) hv
    obtain ⟨b, hb⟩ := h.total l.dst v hd.symm (live_iff.mpr ⟨y, hdst⟩) hv
    rw [hc.distance?_union (ne_of_not_taken hfree hv) hs.symm hd.symm, ha, hb]
    exact ⟨_, rfl⟩
  refine ⟨hanchored.toCanonical, fun u v w' hw => hanchored.live_of_distance? hw, ?_, ?_⟩
  · intro u v huv hu hv
    -- Two vertices of the new graph: both old, or one of them is the union.
    rcases (live_contract_iff hsrc hdst hfree).mp hu with rfl | ⟨huk, hus, hud, hu'⟩ <;>
      rcases (live_contract_iff hsrc hdst hfree).mp hv with hvk | ⟨hvk, hvs, hvd, hv'⟩
    · exact absurd hvk.symm huv
    · exact hunion v hv' hvs hvd
    · subst hvk
      rw [distance?_comm]
      exact hunion u hu' hus hud
    · rw [hc.distance?_other huk hvk ⟨hus, hud⟩ ⟨hvs, hvd⟩]
      exact h.total u v huv hu' hv'
  · intro u v w' hw
    obtain ⟨l', -, hweight⟩ := Option.bind_eq_some_iff.mp hw
    exact hsound.storable l' w' hweight

end RecordLinkage.Graph
