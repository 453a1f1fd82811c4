import RecordLinkage.Proofs.Store.Vertices

namespace RecordLinkage

/-- All that can be asked of a store in memory in one go: a call that every store answers, or a
question that is answered by the store as a whole. -/
inductive Request (ω : Type) where
  | call (c : Call ω)
  | present (k : VertexKey)
  | neighbors (k : VertexKey)
  | graphCount
  | clear (g : GraphId)
  deriving DecidableEq, Repr

namespace Request

variable {ω : Type}

def Answer : Request ω → Type
  | .call c => c.Answer
  | .present _ => Bool
  | .neighbors _ => SortedMap VertexId ω
  | .graphCount => Nat
  | .clear _ => Bool

variable [Weight ω]

def perform : (r : Request ω) → Memory ω → Except (StoreError ω) r.Answer × Memory ω
  | .call c, m => c.perform m
  | .present k, m => (.ok (m.store.live k), m)
  | .neighbors k, m => (.ok (m.store.neighbors k), m)
  | .graphCount, m => (.ok m.store.graphCount, m)
  | .clear g, m => (.ok (m.store.clear g).1, { m with store := (m.store.clear g).2 })

def after (m : Memory ω) (r : Request ω) : Memory ω := (r.perform m).2

/-- What a sequence of requests leaves. The store makes every request of every caller at once, so
the requests of any number of callers form one sequence. -/
def run (m : Memory ω) (rs : List (Request ω)) : Memory ω := rs.foldl after m

theorem run_append (m : Memory ω) (rs rs' : List (Request ω)) :
    run m (rs ++ rs') = run (run m rs) rs' := List.foldl_append

theorem run_take_of_le (m : Memory ω) (rs : List (Request ω)) {i j : Nat} (h : i ≤ j) :
    run m (rs.take j) = run (run m (rs.take i)) ((rs.drop i).take (j - i)) := by
  rw [← run_append, ← List.take_add, Nat.add_sub_cancel' h]

inductive Changes (g : GraphId) (G : Graph ω) : Request ω → Graph ω → Prop where
  | kept (r : Request ω) : Changes g G r G
  | ensured (e : EntityKey) :
    Changes g G (.call (.singleton g e)) (G.ensure (e.singletonId g) e)
  | adjoined {a b v : VertexId} {w : ω} {x y : Cluster ω} (left : G.cluster? a = some x)
    (right : G.cluster? b = some y) (free : G.taken v = false) :
    Changes g G (.call (.merge ⟨g, a⟩ ⟨g, b⟩ w)) (G.adjoin v x y w)
  | retired (v : VertexId) : Changes g G (.call (.removeVertex ⟨g, v⟩)) (G.retire v)
  | linked (l : Link) {w : ω} (storable : Weight.storable w = true) :
    Changes g G (.call (.putEdge ⟨g, l⟩ w)) (G.putLink l w)
  | unlinked (l : Link) : Changes g G (.call (.removeEdge ⟨g, l⟩)) (G.eraseLink l)
  | cleared : Changes g G (.clear g) ∅

end Request

theorem Store.graph_clear {ω : Type} [Weight ω] (s : Store ω) (g h : GraphId) :
    (s.clear g).2.graph h = if g = h then ∅ else s.graph h := by
  rw [graph, clear, SortedMap.get?_erase]
  split <;> rfl

namespace Request

variable {ω : Type} [Weight ω]

theorem changes_after (m : Memory ω) (r : Request ω) (g : GraphId) :
    Changes g (m.store.graph g) r ((after m r).store.graph g) := by
  cases r with
  | present | neighbors | graphCount => exact .kept _
  | clear h =>
    simp only [after, perform, Store.graph_clear]
    split
    · rename_i hg
      subst hg
      exact .cleared
    · exact .kept _
  | call c =>
    cases c with
    | cluster | clusters | weight | lightest | edges | destinations | sources => exact .kept _
    | singleton h e =>
      simp only [after, perform, Call.perform, Store.graph_singleton]
      split
      · rename_i hg
        subst hg
        exact .ensured e
      · exact .kept _
    -- A merge that is in order touches the one graph that both vertices are in.
    | merge a b w =>
      simp only [after, perform, Call.perform]
      rcases hmerge : m.merge a b w with ⟨cause | k, m'⟩
      · rw [Memory.merge_error hmerge]
        exact .kept _
      · obtain ⟨x, y, hjoins, hstore⟩ := Memory.merge_ok hmerge
        rw [hstore, Store.graph_setGraph]
        split
        · rename_i hg
          subst hg
          obtain ⟨g, a⟩ := a
          obtain ⟨g', b⟩ := b
          obtain rfl : g' = g := hjoins.sameGraph
          exact .adjoined hjoins.left hjoins.right hjoins.free
        · exact .kept _
    | removeVertex k =>
      simp only [after, perform, Call.perform, Store.graph_removeVertex]
      split
      · rename_i hg
        obtain ⟨rfl, -⟩ := hg
        exact .retired k.vertex
      · exact .kept _
    | putEdge e w =>
      simp only [after, perform, Call.perform]
      split
      · rename_i s' hs
        obtain ⟨hw, rfl⟩ := Store.putEdge_eq_ok.mp hs
        simp only [Store.graph_setGraph]
        split
        · rename_i hg
          subst hg
          exact .linked e.link hw
        · exact .kept _
      · exact .kept _
    | removeEdge e =>
      simp only [after, perform, Call.perform, Store.graph_removeEdge]
      split
      · rename_i hg
        subst hg
        exact .unlinked e.link
      · exact .kept _

/-- What no request of a sequence breaks in a graph holds there after the sequence. -/
theorem run_graph {P : Graph ω → Prop} {g : GraphId} {rs : List (Request ω)} {m : Memory ω}
    (h : P (m.store.graph g))
    (hstep : ∀ r ∈ rs, ∀ G G', Changes g G r G' → P G → P G') :
    P ((run m rs).store.graph g) := by
  induction rs generalizing m with
  | nil => exact h
  | cons r rs ih =>
    apply ih (m := after m r)
    · exact hstep r List.mem_cons_self _ _ (changes_after m r g) h
    · exact fun r hr => hstep r (List.mem_cons_of_mem _ hr)

end Request

end RecordLinkage
