import RecordLinkage.Proofs.Graph.Links
import RecordLinkage.Proofs.Store.Request

namespace RecordLinkage

variable {ω : Type} [Weight ω]

/-- What a store can hold: indexes in order, and weights that it accepts. Links may be reversed, may
lead from a vertex to itself, and may have lost their ends. -/
structure EdgeIndex.Sound (x : EdgeIndex ω) : Prop extends x.Coherent where
  storable : ∀ l w, x.weight? l = some w → Weight.storable w = true

namespace EdgeIndex.Sound

variable {x : EdgeIndex ω}

theorem empty : (∅ : EdgeIndex ω).Sound := ⟨.empty, nofun⟩

theorem put (h : x.Sound) (l : Link) {w : ω} (hw : Weight.storable w = true) :
    (x.put l w).Sound := ⟨h.toCoherent.put l w, forall_weight?_put h.storable hw⟩

theorem erase (h : x.Sound) (l : Link) : (x.erase l).Sound :=
  ⟨h.toCoherent.erase l, forall_weight?_erase h.storable⟩

end EdgeIndex.Sound

namespace Graph

variable {G : Graph ω} {l : Link} {w : ω} {x y : Cluster ω} {k v : VertexId}

section Contraction

variable {P : EdgeIndex ω → Prop}

theorem linkAll_edges {links : List (VertexId × ω)}
    (hput : ∀ x l p, Link.between? v p.1 = some l → p ∈ links → P x → P (x.put l p.2))
    (h : P G.edges) : P (G.linkAll v links).edges := by
  induction links generalizing G with
  | nil => exact h
  | cons p links ih =>
    apply ih (fun x l q hl hq => hput x l q hl (List.mem_cons_of_mem p hq))
    show P (G.link v p.1 p.2).edges
    rw [link]
    split
    · rename_i l hl
      exact hput _ _ p hl List.mem_cons_self h
    · exact h

theorem unlinkAll_edges (herase : ∀ x l, P x → P (x.erase l)) (v : VertexId)
    (others : List VertexId) (h : P G.edges) : P (G.unlinkAll v others).edges := by
  induction others generalizing G with
  | nil => exact h
  | cons u others ih =>
    apply ih
    show P (G.unlink v u).edges
    rw [unlink]
    split
    · exact herase _ _ h
    · exact h

/-- What the new links of the union and the removal of links preserve, a contraction preserves. -/
theorem contract_edges (herase : ∀ x l, P x → P (x.erase l))
    (hput : ∀ x l' p, Link.between? k p.1 = some l' → p ∈ (G.relinks l w).toList → P x →
      P (x.put l' p.2)) (h : P G.edges) : P (G.contract l w x y k).edges := by
  have hlinked : P ((G.adjoin k x y w).linkAll k (G.relinks l w).toList).edges :=
    linkAll_edges hput h
  have hunlinkedA := unlinkAll_edges herase l.src (G.bystanders l.src l.dst) hlinked
  have hunlinkedB := unlinkAll_edges herase l.dst (G.bystanders l.dst l.src) hunlinkedA
  rw [contract, edges_retire, edges_retire, edges_eraseLink]
  exact herase _ l hunlinkedB

end Contraction

theorem storable_distance? (h : G.edges.Sound) {u : VertexId} (hw : G.distance? u v = some w) :
    Weight.storable w = true := by
  obtain ⟨l, -, hl⟩ := Option.bind_eq_some_iff.mp hw
  exact h.storable l w hl

theorem sound_contract (h : G.edges.Sound)
    (hstorable : ∀ p ∈ (G.relinks l w).toList, Weight.storable p.2 = true) :
    (G.contract l w x y k).edges.Sound :=
  contract_edges (fun _ l hx => hx.erase l)
    (fun _ l' p _ hp hx => hx.put l' (hstorable p hp)) h

end Graph

def Memory.Sound (m : Memory ω) : Prop := ∀ g, (m.store.graph g).edges.Sound

theorem Memory.sound_empty (ids : IdSource) : (⟨∅, ids⟩ : Memory ω).Sound := fun _ => .empty

theorem Request.Changes.sound {G G' : Graph ω} {g : GraphId} {r : Request ω}
    (hchange : Changes g G r G') (h : G.edges.Sound) : G'.edges.Sound := by
  cases hchange with
  | kept | adjoined | retired => exact h
  | ensured e =>
    rw [Graph.edges_ensure]
    exact h
  | linked l storable => exact h.put l storable
  | unlinked l => exact h.erase l
  | cleared => exact .empty

theorem Call.perform_sound (c : Call ω) {m : Memory ω} (h : m.Sound) : (c.perform m).2.Sound :=
  fun g => (Request.changes_after m (.call c) g).sound (h g)

theorem Program.run_sound {α : Type} (p : Program ω α) {m : Memory ω} (h : m.Sound) :
    (p.run m).2.Sound := by
  induction p generalizing m with
  | done r => exact h
  | ask c next ih => exact ih _ (c.perform_sound h)

/-- All that is made of an empty store is as a store can hold it. -/
theorem Program.run_sound_of_empty {α : Type} (p : Program ω α) (ids : IdSource) :
    (p.run ⟨∅, ids⟩).2.Sound := p.run_sound (Memory.sound_empty ids)

end RecordLinkage
