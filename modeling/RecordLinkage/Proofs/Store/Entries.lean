import RecordLinkage.Document.Types
import RecordLinkage.Proofs.Graph.Distance
import RecordLinkage.Proofs.Store.Commute
import RecordLinkage.Proofs.Store.Request

namespace RecordLinkage

variable {ω : Type} [Weight ω]

/-- The graphs of a store are simple: two vertices are linked under one name only, and none is
linked to itself. -/
def Store.Simple (s : Store ω) : Prop :=
  ∀ g u v, (s.weight? ⟨g, ⟨u, v⟩⟩).isSome = true → u ≠ v ∧ s.weight? ⟨g, ⟨v, u⟩⟩ = none

omit [Weight ω] in
/-- The constructors make the edges whose lower end comes first, and no others. -/
theorem Edge.exists_between {e : Edge} :
    (∃ a b, (Edge.between a b : Except (StoreError ω) Edge) = .ok e) ↔
      compare e.link.src e.link.dst = .lt := by
  constructor
  · rintro ⟨a, b, h⟩
    rw [Edge.between] at h
    split at h
    · cases h
    · split at h
      · rename_i l hl
        cases h
        exact (Link.between?_spec hl).1
      · cases h
  · intro h
    refine ⟨e.src, e.dst, ?_⟩
    have hends : Link.between? e.src.vertex e.dst.vertex = some e.link := Link.between?_ends h
    have hgraph : e.src.graph = e.dst.graph := rfl
    rw [Edge.between, if_neg (not_not_intro hgraph), hends]
    rfl

namespace Request

/-- What a request says about an edge, if anything: its weight, or that it is not there. -/
def tells (e : Edge) : Request ω → Option (Option ω)
  | .call (.putEdge e' w) => if e' = e ∧ Weight.storable w = true then some (some w) else none
  | .call (.removeEdge e') => if e' = e then some none else none
  | .clear g => if g = e.graph then some none else none
  | _ => none

def lastTold (rs : List (Request ω)) (e : Edge) : Option ω :=
  rs.foldl (fun old r => (r.tells e).getD old) none

theorem weight?_after (m : Memory ω) (r : Request ω) (e : Edge) :
    (after m r).store.weight? e = (r.tells e).getD (m.store.weight? e) := by
  have hchange := changes_after m r e.graph
  cases r with
  | present | neighbors | graphCount => rfl
  | clear g =>
    simp only [after, perform, tells, Store.weight?, Store.graph_clear]
    split <;> rfl
  | call c =>
    cases c with
    | cluster | clusters | weight | lightest | edges | destinations | sources => rfl
    | singleton | merge | removeVertex =>
      rw [Store.weight?]
      generalize hG : (after m _).store.graph e.graph = G at hchange
      cases hchange <;> simp [tells, Store.weight?]
    | putEdge e' w =>
      rw [after, perform, ← Call.after, Call.after_putEdge]
      by_cases hw : Weight.storable w = true
      · rw [if_pos hw]
        refine (Store.weight?_putEdge (Store.putEdge_eq_ok.mpr ⟨hw, rfl⟩) e).trans ?_
        simp only [tells, hw, and_true]
        split <;> rfl
      · simp [tells, hw]
    | removeEdge e' =>
      refine (Store.weight?_removeEdge m.store e' e).trans ?_
      rw [tells]
      split <;> rfl

/-- An edge is held as the last request about it says. -/
theorem weight?_run (ids : IdSource) (rs : List (Request ω)) (e : Edge) :
    (run ⟨∅, ids⟩ rs).store.weight? e = lastTold rs e := by
  have hfrom (m : Memory ω) : (run m rs).store.weight? e =
      rs.foldl (fun old r => (r.tells e).getD old) (m.store.weight? e) := by
    induction rs generalizing m with
    | nil => rfl
    | cons r rs ih => exact (ih (after m r)).trans (by rw [weight?_after]; rfl)
  exact hfrom ⟨∅, ids⟩

/-- What is held was put, with a weight that can be stored. -/
theorem put_of_weight? {m : Memory ω} {rs : List (Request ω)} (h : m.store = ∅) {e : Edge} {w : ω}
    (hw : (run m rs).store.weight? e = some w) :
    .call (.putEdge e w) ∈ rs ∧ Weight.storable w = true := by
  refine run_graph (g := e.graph) (m := m)
    (P := fun G => ∀ l w, G.edges.weight? l = some w →
      .call (.putEdge ⟨e.graph, l⟩ w) ∈ rs ∧ Weight.storable w = true) ?_ ?_ e.link w hw
  · rw [h]
    exact nofun
  · intro r hr G G' hchange hput
    cases hchange with
    | kept | adjoined | retired => exact hput
    | ensured e' =>
      rw [Graph.edges_ensure]
      exact hput
    | linked l storable => exact EdgeIndex.forall_weight?_put hput ⟨hr, storable⟩
    | unlinked l => exact EdgeIndex.forall_weight?_erase hput
    | cleared => exact nofun

/-- An edge is held exactly as the requests about it say, with its ends as they were given; so a
store whose edges all come from the constructors holds every pair once and no vertex with itself. -/
theorem edges_held_as_put (ids : IdSource) (rs : List (Request ω)) :
    (∀ e, (run ⟨∅, ids⟩ rs).store.weight? e = lastTold rs e) ∧
      ((∀ e w, .call (.putEdge e w) ∈ rs →
        ∃ a b, (Edge.between a b : Except (StoreError ω) Edge) = .ok e) →
      (run ⟨∅, ids⟩ rs).store.Simple) := by
  refine ⟨weight?_run ids rs, fun hmade => ?_⟩
  have hnormal {g : GraphId} {u v : VertexId} {w : ω}
      (hw : (run ⟨∅, ids⟩ rs).store.weight? ⟨g, ⟨u, v⟩⟩ = some w) : compare u v = .lt :=
    Edge.exists_between.mp (hmade _ w (put_of_weight? rfl hw).1)
  intro g u v huv
  obtain ⟨w, hw⟩ := Option.isSome_iff_exists.mp huv
  refine ⟨SortKey.ne_of_lt (hnormal hw), ?_⟩
  cases hback : (run ⟨∅, ids⟩ rs).store.weight? ⟨g, ⟨v, u⟩⟩ with
  | none => rfl
  | some w' =>
    have hgt := SortKey.lt_asymm (hnormal hw)
    rw [hnormal hback] at hgt
    cases hgt

def numberedEdge (src dst : BitVec 128) : Edge := ⟨⟨⟨1⟩⟩, ⟨⟨⟨src⟩⟩, ⟨⟨dst⟩⟩⟩⟩

def putTwice : List (Request Binary64) :=
  [.call (.putEdge (numberedEdge 2 3) .zero), .call (.putEdge (numberedEdge 3 4) .zero),
    .call (.putEdge (numberedEdge 2 3) (.ofDecimal false ⟨1, -1⟩))]

theorem putTwice_simple :
    (∀ e w, .call (.putEdge e w) ∈ putTwice →
      ∃ a b, (Edge.between a b : Except (StoreError Binary64) Edge) = .ok e) ∧
    (run ⟨∅, ⟨[], 0⟩⟩ putTwice).store.weight? (numberedEdge 2 3) =
      some (.ofDecimal false ⟨1, -1⟩) ∧
    (run ⟨∅, ⟨[], 0⟩⟩ putTwice).store.Simple := by
  have hmade : ∀ e w, .call (.putEdge e w) ∈ putTwice →
      ∃ a b, (Edge.between a b : Except (StoreError Binary64) Edge) = .ok e := by
    intro e w he
    rw [Edge.exists_between]
    simp only [putTwice, List.mem_cons, List.not_mem_nil, or_false, call.injEq,
      Call.putEdge.injEq] at he
    rcases he with ⟨rfl, -⟩ | ⟨rfl, -⟩ | ⟨rfl, -⟩ <;> rfl
  obtain ⟨has, hsimple⟩ := edges_held_as_put ⟨[], 0⟩ putTwice
  refine ⟨hmade, ?_, hsimple hmade⟩
  rw [has]
  decide +kernel

/-- Edges are read from documents in whatever order their ends are written, and stored so: a vertex
is linked to itself, or two vertices are linked twice. -/
theorem read_edges_not_simple :
    let put (e : Edge) : Request Binary64 := .call (.putEdge e .zero)
    (∀ e ∈ [numberedEdge 2 2, numberedEdge 2 3, numberedEdge 3 2],
      ∃ d : Document, ofDocument? d = some e) ∧
      ¬ (run ⟨∅, ⟨[], 0⟩⟩ [put (numberedEdge 2 2)]).store.Simple ∧
      ¬ (run ⟨∅, ⟨[], 0⟩⟩ [put (numberedEdge 2 3), put (numberedEdge 3 2)]).store.Simple := by
  intro put
  refine ⟨?_, ?_, ?_⟩
  · intro e he
    refine ⟨toDocument e, ?_⟩
    revert e
    decide +kernel
  · intro h
    exact (h ⟨⟨1⟩⟩ ⟨⟨2⟩⟩ ⟨⟨2⟩⟩ (by decide +kernel)).1 rfl
  · intro h
    exact absurd (h ⟨⟨1⟩⟩ ⟨⟨2⟩⟩ ⟨⟨3⟩⟩ (by decide +kernel)).2 (by decide +kernel)

end Request

end RecordLinkage
