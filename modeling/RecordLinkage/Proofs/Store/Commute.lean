import RecordLinkage.Proofs.Graph.Commute
import RecordLinkage.Proofs.Program.Run

namespace RecordLinkage

section Fold

variable {σ α : Type} {f : σ → α → σ}

/-- What has happened already does not matter again. -/
theorem foldl_absorb {l : List α} (comm : ∀ a ∈ l, ∀ b ∈ l, ∀ s, f (f s a) b = f (f s b) a)
    (idem : ∀ a ∈ l, ∀ s, f (f s a) a = f s a) {a : α} (ha : a ∈ l) (s : σ) :
    l.foldl f (f s a) = l.foldl f s := by
  induction l generalizing s with
  | nil => cases ha
  | cons b l ih =>
    have hb : b ∈ b :: l := List.mem_cons_self
    rw [List.foldl_cons, List.foldl_cons]
    rcases List.mem_cons.mp ha with rfl | ha'
    · rw [idem a hb]
    · rw [comm a ha b hb]
      exact ih (fun a ha b hb => comm a (List.mem_cons_of_mem _ ha) b (List.mem_cons_of_mem _ hb))
        (fun a ha => idem a (List.mem_cons_of_mem _ ha)) ha' _

/-- Actions that commute and can be repeated leave what depends on their set only. -/
theorem foldl_eq_of_mem_iff {l l' : List α} (hmem : ∀ a, a ∈ l ↔ a ∈ l')
    (comm : ∀ a ∈ l, ∀ b ∈ l, ∀ s, f (f s a) b = f (f s b) a)
    (idem : ∀ a ∈ l, ∀ s, f (f s a) a = f s a) (s : σ) : l.foldl f s = l'.foldl f s := by
  have habsorb (l : List α) (comm : ∀ a ∈ l, ∀ b ∈ l, ∀ s, f (f s a) b = f (f s b) a)
      (idem : ∀ a ∈ l, ∀ s, f (f s a) a = f s a) (l' : List α) (hsub : l' ⊆ l) (s : σ) :
      l.foldl f (l'.foldl f s) = l.foldl f s := by
    induction l' generalizing s with
    | nil => rfl
    | cons a l' ih =>
      rw [List.foldl_cons, ih (fun b hb => hsub (List.mem_cons_of_mem _ hb))]
      exact foldl_absorb comm idem (hsub List.mem_cons_self) s
  have hperm : (l' ++ l).foldl f s = (l ++ l').foldl f s := by
    apply List.perm_append_comm.foldl_eq'
    intro a ha b hb s
    refine comm a ?_ b ?_ s <;> simp_all
  calc l.foldl f s
      = l.foldl f (l'.foldl f s) := (habsorb l comm idem l' (fun a ha => (hmem a).mpr ha) s).symm
    _ = l'.foldl f (l.foldl f s) := by rw [← List.foldl_append, ← List.foldl_append, hperm]
    _ = l'.foldl f s := by
      refine habsorb l' ?_ ?_ l (fun a ha => (hmem a).mp ha) s
      · exact fun a ha b hb => comm a ((hmem a).mpr ha) b ((hmem b).mpr hb)
      · exact fun a ha => idem a ((hmem a).mpr ha)

end Fold

variable {ω : Type} [Weight ω]

namespace Store

theorem setGraph_setGraph (s : Store ω) (g : GraphId) (G G' : Graph ω) :
    (s.setGraph g G).setGraph g G' = s.setGraph g G' := by
  rw [setGraph, setGraph, setGraph, SortedMap.put_put]

theorem graph_setGraph_self (s : Store ω) (g : GraphId) (G : Graph ω) :
    (s.setGraph g G).graph g = G := by rw [graph_setGraph, if_pos rfl]

/-- Edges of one graph can be removed in either order. -/
theorem removeEdge_comm (s : Store ω) (g : GraphId) (l l' : Link) :
    ((s.removeEdge ⟨g, l⟩).2.removeEdge ⟨g, l'⟩).2 =
      ((s.removeEdge ⟨g, l'⟩).2.removeEdge ⟨g, l⟩).2 := by
  by_cases hl : l = l'
  · rw [hl]
  have hkept : (s.removeEdge ⟨g, l⟩).2.weight? ⟨g, l'⟩ = s.weight? ⟨g, l'⟩ := by
    rw [weight?_removeEdge, if_neg (by simp [hl])]
  have hkept' : (s.removeEdge ⟨g, l'⟩).2.weight? ⟨g, l⟩ = s.weight? ⟨g, l⟩ := by
    rw [weight?_removeEdge, if_neg (by simp [Ne.symm hl])]
  rw [removeEdge, hkept, removeEdge.eq_1 (s.removeEdge ⟨g, l'⟩).2, hkept']
  simp only [removeEdge]
  split <;> split <;>
    simp only [graph_setGraph_self, setGraph_setGraph, Graph.eraseLink, EdgeIndex.erase_comm _ l l']

end Store

namespace Call

/-- Calls that make sure of vertices, look vertices up or store links in one graph, of which no two
want the same vertex for different entities or the same link with different weights. -/
inductive Agree (g : GraphId) : Call ω → Call ω → Prop where
  | vertices {e e' : EntityKey} (apart : e.singletonId g = e'.singletonId g → e = e') :
    Agree g (.singleton g e) (.singleton g e')
  | links {l l' : Link} {w w' : ω} (same : l = l' → w = w') :
    Agree g (.putEdge ⟨g, l⟩ w) (.putEdge ⟨g, l'⟩ w')
  | vertexLink (e : EntityKey) (l : Link) (w : ω) : Agree g (.singleton g e) (.putEdge ⟨g, l⟩ w)
  | linkVertex (l : Link) (w : ω) (e : EntityKey) : Agree g (.putEdge ⟨g, l⟩ w) (.singleton g e)
  | lookLeft (k : VertexKey) (c : Call ω) : Agree g (.cluster k) c
  | lookRight (c : Call ω) (k : VertexKey) : Agree g c (.cluster k)

def after (m : Memory ω) (c : Call ω) : Memory ω := (c.perform m).2

theorem after_singleton (m : Memory ω) (g : GraphId) (e : EntityKey) :
    after m (.singleton g e) =
      ⟨m.store.setGraph g ((m.store.graph g).ensure (e.singletonId g) e), m.ids⟩ := rfl

theorem after_putEdge (m : Memory ω) (g : GraphId) (l : Link) (w : ω) :
    after m (.putEdge ⟨g, l⟩ w) =
      if Weight.storable w then ⟨m.store.setGraph g ((m.store.graph g).putLink l w), m.ids⟩ else m := by
  simp only [after, perform, Store.putEdge, Store.checkWeight]
  split
  · rename_i s hs
    split at hs
    · rename_i hw
      cases hs
      rw [if_pos hw]
    · cases hs
  · rename_i hs
    split at hs
    · cases hs
    · rename_i hw
      rw [if_neg hw]

theorem vertex_link_comm (g : GraphId) (e : EntityKey) (l : Link) (w : ω) (m : Memory ω) :
    after (after m (.singleton g e)) (.putEdge ⟨g, l⟩ w) =
      after (after m (.putEdge ⟨g, l⟩ w)) (.singleton g e) := by
  simp only [after_singleton, after_putEdge]
  split
  · simp only [Store.graph_setGraph_self, Store.setGraph_setGraph, Graph.putLink_ensure]
  · rfl

theorem Agree.comm {g : GraphId} {c c' : Call ω} (h : Agree g c c') (m : Memory ω) :
    after (after m c) c' = after (after m c') c := by
  cases h with
  | vertices apart =>
    simp only [after_singleton, Store.graph_setGraph_self, Store.setGraph_setGraph]
    rw [Graph.ensure_comm _ apart]
  | @links l l' w w' same =>
    by_cases hl : l = l'
    · subst hl
      rw [same rfl]
    · simp only [after_putEdge]
      cases Weight.storable w <;> cases Weight.storable w' <;>
        simp only [if_true, if_false, Bool.false_eq_true, Store.graph_setGraph_self,
          Store.setGraph_setGraph, Graph.putLink, EdgeIndex.put_comm _ w w' hl]
  | vertexLink e l w => exact vertex_link_comm g e l w m
  | linkVertex l w e => exact (vertex_link_comm g e l w m).symm
  | lookLeft | lookRight => rfl

theorem Agree.idem {g : GraphId} {c : Call ω} (h : Agree g c c) (m : Memory ω) :
    after (after m c) c = after m c := by
  cases h with
  | vertices =>
    simp only [after_singleton, Store.graph_setGraph_self, Store.setGraph_setGraph,
      Graph.ensure_ensure]
  | links =>
    simp only [after_putEdge]
    split
    · simp only [Store.graph_setGraph_self, Store.setGraph_setGraph, Graph.putLink,
        EdgeIndex.put_put]
    · rfl
  | lookLeft | lookRight => rfl

/-- Calls that agree leave what depends on their set only. -/
theorem foldl_after_eq {g : GraphId} {calls calls' : List (Call ω)}
    (hmem : ∀ c, c ∈ calls ↔ c ∈ calls') (hagree : ∀ c ∈ calls, ∀ c' ∈ calls, Agree g c c')
    (m : Memory ω) : calls.foldl after m = calls'.foldl after m :=
  foldl_eq_of_mem_iff hmem (fun c hc c' hc' m => (hagree c hc c' hc').comm m)
    (fun c hc m => (hagree c hc c hc).idem m) m

end Call

end RecordLinkage
