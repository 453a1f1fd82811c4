import RecordLinkage.Proofs.Program.Exchanges
import RecordLinkage.Proofs.Block.Scored

namespace RecordLinkage

variable {ω : Type}

/-- The replies of a store to the calls of a pair, where its vertices were not retired. -/
def Call.expects : (c : Call ω) → c.Reply → Prop
  | .singleton g e, r => r = .ok ⟨g, e.singletonId g⟩
  | .cluster _, r => ∃ x, r = .ok (some x)
  | .putEdge _ _, r => r = .ok ()
  | _, _ => False

def ensureCalls (ω : Type) (g : GraphId) (e : EntityKey) : List (Call ω) :=
  [.singleton g e, .cluster ⟨g, e.singletonId g⟩]

open Program

theorem Scorer.liveSingleton_follows (g : GraphId) (e : EntityKey) :
    (liveSingleton g e : Program ω VertexKey).Follows Call.expects (.ok ⟨g, e.singletonId g⟩)
      (ensureCalls ω g e) := by
  refine ⟨_, rfl, fun r hr => ?_⟩
  cases hr
  refine ⟨_, rfl, fun r hr => ?_⟩
  obtain ⟨x, rfl⟩ := hr
  exact ⟨rfl, rfl⟩

variable [Weight ω]

def linking (g : GraphId) (u v : VertexId) (weight : Outcome (ScoringError ω) ω) :
    List (Call ω) × Outcome (Error ω) (PairOutcome ω) :=
  match weight with
  | .error e => ([], .error (.scoring e))
  | .crash => ([], .crash)
  | .ok w =>
    match Link.between? u v with
    | none => ([], .error (.store (.selfLoop ⟨g, u⟩)))
    | some l => ([.putEdge ⟨g, l⟩ w], .ok (.edge ⟨g, l⟩ w))

omit [Weight ω] in
theorem linking_follows (g : GraphId) (u v : VertexId) (weight : Outcome (ScoringError ω) ω) :
    (do
      let w ← Scorer.ofScoring weight
      let e ← ofStore (Edge.between ⟨g, u⟩ ⟨g, v⟩)
      putEdge e w
      return PairOutcome.edge e w : Program ω (PairOutcome ω)).Follows Call.expects
        (linking g u v weight).2 (linking g u v weight).1 := by
  unfold linking
  cases weight with
  | error e => exact ⟨rfl, rfl⟩
  | crash => exact ⟨rfl, rfl⟩
  | ok w =>
    rw [Edge.between, if_neg (not_not_intro rfl)]
    cases Link.between? u v with
    | none => exact ⟨rfl, rfl⟩
    | some l =>
      refine ⟨_, rfl, fun r hr => ?_⟩
      cases hr
      exact ⟨rfl, rfl⟩

namespace PairTask

/-- The calls of a pair and how it ends, where its vertices were not retired. A pair that fails calls
what it calls before it fails. -/
def script (t : PairTask) (source : EntitySource ω) (scorer : Scorer ω) :
    List (Call ω) × Outcome (Error ω) (PairOutcome ω) :=
  match t.entities source with
  | .error e => ([], .error e)
  | .crash => ([], .crash)
  | .ok (x, y) =>
    if t.a = t.b then
      (ensureCalls ω t.graph t.a, .ok (.singleton ⟨t.graph, t.a.singletonId t.graph⟩))
    else
      let linked := linking t.graph (t.a.singletonId t.graph) (t.b.singletonId t.graph)
        (scorer.weigh x y t.context.index)
      (ensureCalls ω t.graph t.a ++ (ensureCalls ω t.graph t.b ++ linked.1), linked.2)

theorem process_follows (t : PairTask) (source : EntitySource ω) (scorer : Scorer ω) :
    (t.process source scorer).Follows Call.expects (t.script source scorer).2
      (t.script source scorer).1 := by
  unfold process script
  cases t.entities source with
  | error e => exact ⟨rfl, rfl⟩
  | crash => exact ⟨rfl, rfl⟩
  | ok entities =>
    show (scorer.record t.graph t.a entities.1 t.b entities.2 t.context.index).Follows _ _ _
    unfold Scorer.record
    by_cases hsame : t.a = t.b
    · simp only [if_pos hsame]
      rw [← List.append_nil (ensureCalls ω t.graph t.a)]
      exact (Scorer.liveSingleton_follows t.graph t.a).bind ⟨rfl, rfl⟩
    · simp only [if_neg hsame]
      refine (Scorer.liveSingleton_follows t.graph t.a).bind ?_
      exact (Scorer.liveSingleton_follows t.graph t.b).bind (linking_follows _ _ _ _)

end PairTask

omit [Weight ω] in
theorem mem_linking {g : GraphId} {u v : VertexId} {weight : Outcome (ScoringError ω) ω} {c : Call ω}
    (h : c ∈ (linking g u v weight).1) : ∃ l w, weight = .ok w ∧ Link.between? u v = some l ∧
      c = .putEdge ⟨g, l⟩ w ∧ (linking g u v weight).2 = .ok (.edge ⟨g, l⟩ w) := by
  unfold linking at h ⊢
  cases weight with
  | error e => cases h
  | crash => cases h
  | ok w =>
    cases hl : Link.between? u v with
    | none =>
      rw [hl] at h
      cases h
    | some l =>
      rw [hl] at h
      exact ⟨l, w, rfl, rfl, List.mem_singleton.mp h, rfl⟩

omit [Weight ω] in
theorem linking_edge {g : GraphId} {u v : VertexId} {weight : Outcome (ScoringError ω) ω} {e : Edge}
    {w : ω} (h : (linking g u v weight).2 = .ok (.edge e w)) : weight = .ok w := by
  unfold linking at h
  cases weight with
  | error e => cases h
  | crash => cases h
  | ok w' =>
    cases hl : Link.between? u v with
    | none =>
      rw [hl] at h
      cases h
    | some l =>
      rw [hl] at h
      cases h
      rfl

def Prepared (g : GraphId) (made : List (Call ω)) : List (Call ω) → Prop
  | [] => True
  | c :: later => (∀ k, c = .cluster k → ∃ e, k = ⟨g, e.singletonId g⟩ ∧ .singleton g e ∈ made) ∧
      Prepared g (made ++ [c]) later

omit [Weight ω] in
theorem Prepared.ensure {g : GraphId} {e : EntityKey} {made later : List (Call ω)}
    (h : Prepared g (made ++ ensureCalls ω g e) later) :
    Prepared g made (ensureCalls ω g e ++ later) := by
  refine ⟨nofun, fun k hk => ?_, ?_⟩
  · cases hk
    exact ⟨e, rfl, List.mem_append_right _ (List.mem_singleton.mpr rfl)⟩
  · rw [List.append_assoc]
    exact h

namespace PairTask

variable {t : PairTask} {source : EntitySource ω} {scorer : Scorer ω}

theorem script_prepared : Prepared t.graph [] (t.script source scorer).1 := by
  unfold script
  cases t.entities source with
  | error e => trivial
  | crash => trivial
  | ok entities =>
    by_cases hsame : t.a = t.b
    · simp only [if_pos hsame]
      rw [← List.append_nil (ensureCalls ω t.graph t.a)]
      exact Prepared.ensure trivial
    · simp only [if_neg hsame]
      refine Prepared.ensure (Prepared.ensure ?_)
      unfold linking
      cases scorer.weigh entities.1 entities.2 t.context.index with
      | error e => trivial
      | crash => trivial
      | ok w =>
        cases Link.between? (t.a.singletonId t.graph) (t.b.singletonId t.graph) with
        | none => trivial
        | some l => exact ⟨nofun, trivial⟩

/-- A pair calls for the vertices of its entities, and for one link, whose weight it ends with. -/
theorem mem_script {c : Call ω} (h : c ∈ (t.script source scorer).1) :
    (∃ e, (e = t.a ∨ e = t.b) ∧
      (c = .singleton t.graph e ∨ c = .cluster ⟨t.graph, e.singletonId t.graph⟩)) ∨
      ∃ l w, t.a ≠ t.b ∧ Weight.storable w = true ∧
        Link.between? (t.a.singletonId t.graph) (t.b.singletonId t.graph) = some l ∧
        c = .putEdge ⟨t.graph, l⟩ w ∧ (t.script source scorer).2 = .ok (.edge ⟨t.graph, l⟩ w) := by
  unfold script at h ⊢
  cases hread : t.entities source with
  | error e =>
    rw [hread] at h
    cases h
  | crash =>
    rw [hread] at h
    cases h
  | ok entities =>
    rw [hread] at h
    by_cases hsame : t.a = t.b
    · simp only [if_pos hsame, ensureCalls, List.mem_cons, List.not_mem_nil, or_false] at h
      exact .inl ⟨t.a, .inl rfl, h⟩
    · simp only [if_neg hsame, List.mem_append] at h ⊢
      rcases h with h | h | h
      · simp only [ensureCalls, List.mem_cons, List.not_mem_nil, or_false] at h
        exact .inl ⟨t.a, .inl rfl, h⟩
      · simp only [ensureCalls, List.mem_cons, List.not_mem_nil, or_false] at h
        exact .inl ⟨t.b, .inr rfl, h⟩
      · obtain ⟨l, w, hw, hl, hc, hend⟩ := mem_linking h
        exact .inr ⟨l, w, hsame, Scorer.weigh_storable hw, hl, hc, hend⟩

/-- A pair that ends with a link stores a weight that a graph holds. -/
theorem script_edge {e : Edge} {w : ω} (h : (t.script source scorer).2 = .ok (.edge e w)) :
    Weight.storable w = true := by
  unfold script at h
  cases hread : t.entities source with
  | error e =>
    rw [hread] at h
    cases h
  | crash =>
    rw [hread] at h
    cases h
  | ok entities =>
    rw [hread] at h
    by_cases hsame : t.a = t.b
    · simp only [if_pos hsame, Outcome.ok.injEq, reduceCtorEq] at h
    · simp only [if_neg hsame] at h
      exact Scorer.weigh_storable (linking_edge h)

end PairTask

end RecordLinkage
