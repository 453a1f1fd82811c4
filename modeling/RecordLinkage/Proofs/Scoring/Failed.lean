import RecordLinkage.Proofs.Recording.Ledger
import RecordLinkage.Proofs.Scoring.Outcomes
import RecordLinkage.Proofs.Weight.Overflow

namespace RecordLinkage

variable {ω : Type} [Weight ω]

/-- Nothing came to a memory but singletons of certain entities in one graph. -/
structure Memory.Gains (m : Memory ω) (g : GraphId) (entities : List EntityKey) (m' : Memory ω) :
    Prop where
  ids : m'.ids = m.ids
  elsewhere : ∀ g', g ≠ g' → m'.store.part g' = m.store.part g'
  edges : (m'.store.graph g).edges = (m.store.graph g).edges
  retired : (m'.store.graph g).retired = (m.store.graph g).retired
  kept : ∀ v c, (m.store.graph g).cluster? v = some c → (m'.store.graph g).cluster? v = some c
  new : ∀ v c, (m'.store.graph g).cluster? v = some c → (m.store.graph g).cluster? v = some c ∨
    ∃ e ∈ entities, v = e.singletonId g ∧ c = .singleton e

namespace Memory.Gains

variable {m m' : Memory ω} {g : GraphId} {entities : List EntityKey}

theorem refl (m : Memory ω) (g : GraphId) (entities : List EntityKey) : m.Gains g entities m :=
  ⟨rfl, fun _ _ => rfl, rfl, rfl, fun _ _ h => h, fun _ _ h => .inl h⟩

theorem ensure (h : m.Gains g entities m') {e : EntityKey} (he : e ∈ entities) :
    m.Gains g entities (Call.after m' (.singleton g e)) := by
  rw [Call.after_singleton]
  refine ⟨h.ids, fun g' hg => ?_, ?_, ?_, fun v c hc => ?_, fun v c hc => ?_⟩
  · rw [Store.part_setGraph, if_neg hg, h.elsewhere g' hg]
  · rw [Store.graph_setGraph_self, Graph.edges_ensure, h.edges]
  · rw [Store.graph_setGraph_self, Graph.retired_ensure, h.retired]
  · have hc' := h.kept v c hc
    rw [Store.graph_setGraph_self, Graph.cluster?_ensure, if_neg, hc']
    rintro ⟨hfree, rfl⟩
    rw [Graph.taken_iff.mpr (.inl (Graph.live_iff.mpr ⟨c, hc'⟩))] at hfree
    cases hfree
  · rw [Store.graph_setGraph_self, Graph.cluster?_ensure] at hc
    split at hc
    · rename_i hnew
      cases hc
      exact .inr ⟨e, he, hnew.2.symm, rfl⟩
    · exact h.new v c hc

/-- Edges and retired vertices stay, in every graph. -/
theorem same (h : m.Gains g entities m') (g' : GraphId) :
    (m'.store.graph g').edges = (m.store.graph g').edges ∧
      (m'.store.graph g').retired = (m.store.graph g').retired := by
  by_cases hg : g = g'
  · subst hg
    exact ⟨h.edges, h.retired⟩
  · rw [Store.graph_congr (h.elsewhere g' hg)]
    exact ⟨rfl, rfl⟩

theorem cluster?_kept (h : m.Gains g entities m') {k : VertexKey} {c : Cluster ω}
    (hc : m.store.cluster? k = some c) : m'.store.cluster? k = some c := by
  by_cases hg : g = k.graph
  · subst hg
    exact h.kept k.vertex c hc
  · rw [Store.cluster?, Store.graph_congr (h.elsewhere _ hg)]
    exact hc

theorem cluster?_new (h : m.Gains g entities m') {k : VertexKey} {c : Cluster ω}
    (hc : m'.store.cluster? k = some c) :
    m.store.cluster? k = some c ∨
      ∃ e ∈ entities, k = ⟨g, e.singletonId g⟩ ∧ c = .singleton e := by
  by_cases hg : g = k.graph
  · subst hg
    rcases h.new k.vertex c hc with hold | ⟨e, he, hk, hnew⟩
    · exact .inl hold
    · exact .inr ⟨e, he, VertexKey.eq_of_parts rfl hk, hnew⟩
  · rw [Store.cluster?, Store.graph_congr (h.elsewhere _ hg)] at hc
    exact .inl hc

end Memory.Gains

omit [Weight ω] in
theorem linking_eq_ok {g : GraphId} {u v : VertexId} {weight : Outcome (ScoringError ω) ω}
    {o : PairOutcome ω} (h : (linking g u v weight).2 = .ok o) :
    ∃ l w, weight = .ok w ∧ Link.between? u v = some l ∧ o = .edge ⟨g, l⟩ w ∧
      (linking g u v weight).1 = [.putEdge ⟨g, l⟩ w] := by
  unfold linking at h ⊢
  cases weight with
  | error cause => cases h
  | crash => cases h
  | ok w =>
    cases hl : Link.between? u v with
    | none =>
      rw [hl] at h
      cases h
    | some l =>
      rw [hl] at h
      cases h
      exact ⟨l, w, rfl, rfl, rfl, rfl⟩

namespace Recorded

variable {g : GraphId} {a b : EntityKey} {weight : Outcome (ScoringError ω) ω} {m : Memory ω}
  {r : Outcome (Error ω) (PairOutcome ω) × Memory ω}

/-- A pair that fails leaves no more than the singletons of its entities. -/
theorem gains (h : Recorded g a b weight m r) (hfail : ∀ o, r.1 ≠ .ok o) :
    m.Gains g [a, b] r.2 := by
  have hstart := Memory.Gains.refl m g [a, b]
  cases h with
  | firstGone => exact hstart
  | self => exact absurd rfl (hfail _)
  | secondGone => exact hstart.ensure (by simp)
  | scored =>
    have hnothing : (linking g (a.singletonId g) (b.singletonId g) weight).1 = [] := by
      rw [List.eq_nil_iff_forall_not_mem]
      intro c hc
      obtain ⟨l, w, -, -, -, hok⟩ := mem_linking hc
      exact hfail _ hok
    rw [hnothing]
    exact (hstart.ensure (by simp)).ensure (by simp)

/-- Who is refused is gone, and had he come first nothing was written. -/
theorem refused (h : Recorded g a b weight m r) {k : VertexKey}
    (hr : r.1 = .error (.store (.vertexNotFound k))) :
    k = ⟨g, a.singletonId g⟩ ∧ (m.store.graph g).Gone (a.singletonId g) ∧ r.2 = m ∨
      a ≠ b ∧ k = ⟨g, b.singletonId g⟩ ∧ (m.store.graph g).Gone (b.singletonId g) ∧
        r.2 = Call.after m (.singleton g a) := by
  cases h with
  | firstGone gone =>
    cases hr
    exact .inl ⟨rfl, gone, rfl⟩
  | self => cases hr
  | secondGone distinct gone =>
    cases hr
    exact .inr ⟨distinct, rfl, gone, rfl⟩
  | scored =>
    unfold linking at hr
    cases weight with
    | error cause => cases hr
    | crash => cases hr
    | ok w =>
      cases hl : Link.between? (a.singletonId g) (b.singletonId g) with
      | none | some l =>
        rw [hl] at hr
        cases hr

/-- A pair that was read fails on a vertex or on its weight. -/
theorem causes (h : Recorded g a b weight m r) {cause : Error ω} (hr : r.1 = .error cause) :
    (∃ k, cause = .store (.vertexNotFound k)) ∨ (∃ k, cause = .store (.selfLoop k)) ∨
      ∃ e, cause = .scoring e := by
  cases h with
  | firstGone | secondGone =>
    cases hr
    exact .inl ⟨_, rfl⟩
  | self => cases hr
  | scored =>
    unfold linking at hr
    cases weight with
    | error e =>
      cases hr
      exact .inr (.inr ⟨e, rfl⟩)
    | crash => cases hr
    | ok w =>
      cases hl : Link.between? (a.singletonId g) (b.singletonId g) with
      | none =>
        rw [hl] at hr
        cases hr
        exact .inr (.inl ⟨_, rfl⟩)
      | some l =>
        rw [hl] at hr
        cases hr

/-- A pair of two entities ends well when both vertices are there and its link is stored. -/
theorem linked (h : Recorded g a b weight m r) (distinct : a ≠ b) {o : PairOutcome ω}
    (hr : r.1 = .ok o) :
    ∃ l w, weight = .ok w ∧ Link.between? (a.singletonId g) (b.singletonId g) = some l ∧
      o = .edge ⟨g, l⟩ w ∧ ¬ (m.store.graph g).Gone (a.singletonId g) ∧
      ¬ (m.store.graph g).Gone (b.singletonId g) ∧
      r.2 = Call.after (Call.after (Call.after m (.singleton g a)) (.singleton g b))
        (.putEdge ⟨g, l⟩ w) := by
  cases h with
  | firstGone => cases hr
  | self same => exact absurd same distinct
  | secondGone => cases hr
  | scored _ there there' =>
    obtain ⟨l, w, hw, hl, ho, hcalls⟩ := linking_eq_ok hr
    refine ⟨l, w, hw, hl, ho, there, there', ?_⟩
    rw [hcalls]
    rfl

end Recorded

theorem Weight.storable_iff {w : ω} :
    Weight.storable w = true ↔ Weight.finite w = true ∧ Weight.lt w Weight.zero = false := by
  rw [Weight.storable, Bool.and_eq_true, Bool.not_eq_true']

theorem Call.weight?_after_putEdge (m : Memory ω) {g : GraphId} {l : Link} {w : ω}
    (h : Weight.storable w = true) :
    (Call.after m (.putEdge ⟨g, l⟩ w)).store.weight? ⟨g, l⟩ = some w := by
  rw [Call.after_putEdge, if_pos h]
  exact (Store.weight?_putEdge (Store.putEdge_eq_ok.mpr ⟨h, rfl⟩) _).trans (if_pos rfl)

theorem Scorer.weigh_eq_ok {s : Scorer ω} {x y : Entity} {index : PropertyIndex} {w : ω}
    (h : s.weigh x y index = .ok w) :
    ∃ rows score, s.extract x y index = .ok rows ∧ s.oracle rows = .ok score ∧
      w = Weight.add score s.bias ∧ Weight.finite w = true ∧ Weight.lt w Weight.zero = false := by
  obtain ⟨rows, hrows, h⟩ := Outcome.bind_eq_ok.mp h
  obtain ⟨score, hscore, h⟩ := Outcome.bind_eq_ok.mp h
  dsimp only at h
  split at h
  · rename_i hstorable
    cases h
    exact ⟨rows, score, hrows, hscore, rfl, Weight.storable_iff.mp hstorable⟩
  · cases h

/-- On doubles, not to be below zero is to be zero or above. -/
theorem Binary64.not_lt_zero (w : Binary64) :
    (w.isFinite && !w.lt .zero) = (w.isFinite && (Binary64.zero.lt w || Binary64.zero.same w)) := by
  cases hw : w.isFinite with
  | false => rfl
  | true =>
    have hnumber := isNaN_of_isFinite hw
    have hzero : zero.isNaN = false := by decide
    have hkey : zero.numericKey = 0 := by decide
    rw [Bool.eq_iff_iff]
    simp only [lt, same, hnumber, hzero, hkey, Bool.not_false, Bool.true_and, Bool.not_eq_true',
      decide_eq_false_iff_not, Bool.or_eq_true, decide_eq_true_eq]
    omega

/-- A pair that is refused because a singleton was merged away leaves edges, retired vertices, other
graphs and the figures of its scorer as they were. Where the vertex of its first entity is live or
retired, nothing at all is written; where it is new it stays, and it is all that was written. -/
theorem refused_pair_makes_new_first_only (s : Scorer ω) (g : GraphId) (a : EntityKey)
    (entityA : Entity) (b : EntityKey) (entityB : Entity) (index : PropertyIndex) (tally : Tally ω)
    {m m' : Memory ω} {k : VertexKey}
    (refused : (s.record g a entityA b entityB index).run m =
      (.error (.store (.vertexNotFound k)), m')) :
    (∃ e, (e = a ∨ e = b) ∧ k = ⟨g, e.singletonId g⟩ ∧ k.vertex ∈ (m.store.graph g).retired ∧
      m.store.live k = false) ∧
    tally.after ((s.record g a entityA b entityB index).run m).1 = tally ∧
    ((m.store.graph g).taken (a.singletonId g) = true → m' = m) ∧
    ((m.store.graph g).taken (a.singletonId g) = false →
      a ≠ b ∧ k = ⟨g, b.singletonId g⟩ ∧
      m'.store.cluster? ⟨g, a.singletonId g⟩ = some (.singleton a) ∧
      m' = ⟨m.store.setGraph g ((m.store.graph g).ensure (a.singletonId g) a), m.ids⟩ ∧
      m.Gains g [a] m') := by
  have hrecorded := s.run_record g a entityA b entityB index m
  rw [refused] at hrecorded ⊢
  rcases hrecorded.refused rfl with ⟨rfl, hgone, rfl⟩ | ⟨hdistinct, rfl, hgone, rfl⟩
  · refine ⟨⟨a, .inl rfl, rfl, hgone⟩, rfl, fun _ => rfl, fun hnew => ?_⟩
    rw [hgone.taken] at hnew
    cases hnew
  · refine ⟨⟨b, .inr rfl, rfl, hgone⟩, rfl, Call.after_singleton_of_taken, fun hnew => ?_⟩
    have hgains := (Memory.Gains.refl m g [a]).ensure (List.mem_singleton.mpr rfl)
    refine ⟨hdistinct, rfl, ?_, rfl, hgains⟩
    rw [Store.cluster?, Call.after_singleton, Store.graph_setGraph_self]
    exact Graph.cluster?_ensure_of_not_taken a hnew

def firstEntity : EntityKey := ⟨⟨⟨7⟩⟩, ⟨⟨1⟩⟩⟩

def secondEntity : EntityKey := ⟨⟨⟨7⟩⟩, ⟨⟨2⟩⟩⟩

def secondGone : Memory Binary64 :=
  Call.after (Call.after ⟨∅, ⟨[], 0⟩⟩ (.singleton ⟨⟨1⟩⟩ secondEntity))
    (.removeVertex ⟨⟨⟨1⟩⟩, secondEntity.singletonId ⟨⟨1⟩⟩⟩)

def evenScorer (score : Binary64) : Scorer Binary64 :=
  ⟨overlapFeatures, .constant score, defaultBias⟩

def recordBlank (a b : EntityKey) (m : Memory Binary64) :
    Outcome (Error Binary64) (PairOutcome Binary64) × Memory Binary64 :=
  ((evenScorer .zero).record ⟨⟨1⟩⟩ a ∅ b ∅ ⟨[]⟩).run m

theorem newFirst_written :
    (recordBlank firstEntity secondEntity secondGone).1 =
      .error (.store (.vertexNotFound ⟨⟨⟨1⟩⟩, secondEntity.singletonId ⟨⟨1⟩⟩⟩)) ∧
    (secondGone.store.graph ⟨⟨1⟩⟩).retired.contains (secondEntity.singletonId ⟨⟨1⟩⟩) = true ∧
    secondGone.store.clusters ⟨⟨1⟩⟩ = [] ∧
    ((recordBlank firstEntity secondEntity secondGone).2.store.clusters ⟨⟨1⟩⟩).length = 1 ∧
    (recordBlank firstEntity secondEntity secondGone).2 ≠ secondGone := by
  decide +kernel

theorem secondGone_refused : ∃ refusal m₁ m₂,
    refusal = .error (.store (.vertexNotFound ⟨⟨⟨1⟩⟩, secondEntity.singletonId ⟨⟨1⟩⟩⟩)) ∧
    recordBlank firstEntity secondEntity secondGone = (refusal, m₁) ∧
    m₁.store.cluster? ⟨⟨⟨1⟩⟩, firstEntity.singletonId ⟨⟨1⟩⟩⟩ = some (.singleton firstEntity) ∧
    recordBlank secondEntity firstEntity secondGone = (refusal, m₂) ∧ m₂ = secondGone := by
  have hafter : recordBlank firstEntity secondEntity secondGone =
      (.error (.store (.vertexNotFound ⟨⟨⟨1⟩⟩, secondEntity.singletonId ⟨⟨1⟩⟩⟩)),
        (recordBlank firstEntity secondEntity secondGone).2) := Prod.ext (by decide +kernel) rfl
  have hbefore : recordBlank secondEntity firstEntity secondGone =
      (.error (.store (.vertexNotFound ⟨⟨⟨1⟩⟩, secondEntity.singletonId ⟨⟨1⟩⟩⟩)),
        (recordBlank secondEntity firstEntity secondGone).2) := Prod.ext (by decide +kernel) rfl
  obtain ⟨-, -, -, hnew⟩ := refused_pair_makes_new_first_only _ _ _ _ _ _ _ .empty hafter
  obtain ⟨-, -, hknown, -⟩ := refused_pair_makes_new_first_only _ _ _ _ _ _ _ .empty hbefore
  have hmade := (hnew (by decide +kernel)).2.2.1
  exact ⟨_, _, _, rfl, hafter, hmade, hbefore, hknown (by decide +kernel)⟩

namespace PairTask

variable {t : PairTask} {source : EntitySource ω} {scorer : Scorer ω} {m : Memory ω}

omit [Weight ω] in
theorem entities_eq_ok {x y : Entity} (h : t.entities source = .ok (x, y)) (distinct : t.a ≠ t.b) :
    source.require t.context.syncs t.a = .ok x ∧ source.require t.context.syncs t.b = .ok y := by
  obtain ⟨x', hx, h⟩ := Outcome.bind_eq_ok.mp h
  rw [selfPair, decide_eq_false distinct] at h
  obtain ⟨y', hy, h⟩ := Outcome.bind_eq_ok.mp h
  cases h
  exact ⟨hx, hy⟩

theorem recorded {x y : Entity} (h : t.entities source = .ok (x, y)) (scorer : Scorer ω)
    (m : Memory ω) :
    Recorded t.graph t.a t.b (scorer.weigh x y t.context.index) m
      ((t.process source scorer).run m) := by
  have hprocess : t.process source scorer =
      scorer.record t.graph t.a x t.b y t.context.index := by
    rw [process, h]
    rfl
  rw [hprocess]
  exact scorer.run_record _ _ _ _ _ _ m

theorem run_process_of_unread (h : ∀ p, t.entities source ≠ .ok p) (scorer : Scorer ω)
    (m : Memory ω) : ((t.process source scorer).run m).2 = m := by
  rw [process]
  cases hread : t.entities source with
  | ok p => exact absurd hread (h p)
  | error cause => rfl
  | crash => rfl

/-- A pair that fails leaves no more than the singletons of its entities. -/
theorem gains_of_failed (hfail : ∀ o, ((t.process source scorer).run m).1 ≠ .ok o) :
    m.Gains t.graph [t.a, t.b] ((t.process source scorer).run m).2 := by
  by_cases hread : ∃ p, t.entities source = .ok p
  · obtain ⟨⟨x, y⟩, hread⟩ := hread
    exact (recorded hread scorer m).gains hfail
  · rw [run_process_of_unread (not_exists.mp hread)]
    exact .refl m _ _

/-- What is said of a pair before its entities are read was said by the reading. -/
theorem entities_eq_error {cause : Error ω}
    (h : ((t.process source scorer).run m).1 = .error cause)
    (hvertex : ∀ k, cause ≠ .store (.vertexNotFound k)) (hloop : ∀ k, cause ≠ .store (.selfLoop k))
    (hscoring : ∀ e, cause ≠ .scoring e) : t.entities source = .error cause := by
  cases hread : t.entities source with
  | ok p =>
    rcases (recorded (x := p.1) (y := p.2) hread scorer m).causes h with ⟨k, hk⟩ | ⟨k, hk⟩ | ⟨e, he⟩
    · exact absurd hk (hvertex k)
    · exact absurd hk (hloop k)
    · exact absurd he (hscoring e)
  | error cause' =>
    rw [process, hread] at h
    cases h
    rfl
  | crash =>
    rw [process, hread] at h
    cases h

theorem entities_of_ok {o : PairOutcome ω}
    (h : ((t.process source scorer).run m).1 = .ok o) : ∃ x y, t.entities source = .ok (x, y) := by
  have hrun : (t.process source scorer).run m = (.ok o, ((t.process source scorer).run m).2) :=
    Prod.ext h rfl
  obtain ⟨p, hp, -⟩ := Program.run_done_bind_eq_ok.mp hrun
  exact ⟨p.1, p.2, hp⟩

end PairTask

/-- A pair that fails leaves all edges, all live and retired vertices, all other graphs and the
figures of its scorer as they were; at most singletons of its entities are new, and none if its
entities could not be read. A pair of two entities that ends well has stored its score and the bias
between two vertices that were found live. No weight that the scorer lets through is refused. -/
theorem failed_pair_leaves_edges (t : PairTask) (source : EntitySource ω) (scorer : Scorer ω)
    (m : Memory ω) (tally : Tally ω) :
    let r := (t.process source scorer).run m
    ((∀ o, r.1 ≠ .ok o) →
      (∀ g, (r.2.store.graph g).edges = (m.store.graph g).edges ∧
        (r.2.store.graph g).retired = (m.store.graph g).retired) ∧
      (∀ g, t.graph ≠ g → r.2.store.part g = m.store.part g) ∧
      tally.after r.1 = tally ∧
      (∀ k c, m.store.cluster? k = some c → r.2.store.cluster? k = some c) ∧
      ∀ k c, r.2.store.cluster? k = some c → m.store.cluster? k = some c ∨
        ∃ e, (e = t.a ∨ e = t.b) ∧ k = ⟨t.graph, e.singletonId t.graph⟩ ∧
          c.diameter = Weight.zero ∧ c.members.toList = [e]) ∧
    ((∃ set, r.1 = .error (.missingSyncId set)) ∨ (∃ k, r.1 = .error (.entityNotFound k)) →
      r.2 = m) ∧
    (t.a ≠ t.b → ∀ o, r.1 = .ok o → ∃ l w x y rows score, o = .edge ⟨t.graph, l⟩ w ∧
      Link.between? (t.a.singletonId t.graph) (t.b.singletonId t.graph) = some l ∧
      source.require t.context.syncs t.a = .ok x ∧ source.require t.context.syncs t.b = .ok y ∧
      scorer.extract x y t.context.index = .ok rows ∧ scorer.oracle rows = .ok score ∧
      w = Weight.add score scorer.bias ∧ Weight.finite w = true ∧
      Weight.lt w Weight.zero = false ∧ r.2.store.weight? ⟨t.graph, l⟩ = some w ∧
      ∀ e, e = t.a ∨ e = t.b → ∃ x ∈ (t.process source scorer).trace m,
        x.call = .cluster ⟨t.graph, e.singletonId t.graph⟩ ∧
          x.before.store.live ⟨t.graph, e.singletonId t.graph⟩ = true) ∧
    -- The weight is tested before anything is stored, by the test of the store.
    (∀ w, r.1 = .error (.store (.invalidWeight w)) →
      t.entities source = .error (.store (.invalidWeight w))) ∧
    (∀ w, Weight.finite w = true → Weight.lt w Weight.zero = false →
      ∀ (s : Store ω) e, ∃ s', s.putEdge e w = .ok s') ∧
    ∀ w : Binary64, (w.isFinite && !w.lt .zero) =
      (w.isFinite && (Binary64.zero.lt w || Binary64.zero.same w)) := by
  intro r
  refine ⟨fun hfail => ?_, fun hmissing => ?_, fun hdistinct o ho => ?_, fun w hw => ?_,
    fun w hfinite hpositive s e => ?_, Binary64.not_lt_zero⟩
  · have hgains := PairTask.gains_of_failed hfail
    have htally : tally.after r.1 = tally := by
      cases hr : r.1 with
      | ok o => exact absurd hr (hfail o)
      | error | crash => rfl
    refine ⟨hgains.same, hgains.elsewhere, htally, fun k c => hgains.cluster?_kept,
      fun k c hc => ?_⟩
    rcases hgains.cluster?_new hc with hold | ⟨e, he, hk, rfl⟩
    · exact .inl hold
    · exact .inr ⟨e, by simpa using he, hk, rfl, rfl⟩
  · apply PairTask.run_process_of_unread
    intro p hp
    rcases hmissing with ⟨set, hr⟩ | ⟨k, hr⟩ <;>
      · rw [PairTask.entities_eq_error hr (by simp) (by simp) (by simp)] at hp
        cases hp
  · obtain ⟨x, y, hread⟩ := PairTask.entities_of_ok ho
    obtain ⟨l, w, hw, hl, rfl, there, there', hleft⟩ :=
      (PairTask.recorded hread scorer m).linked hdistinct ho
    obtain ⟨hx, hy⟩ := PairTask.entities_eq_ok hread hdistinct
    obtain ⟨rows, score, hrows, hscore, hsum, hfinite, hpositive⟩ := Scorer.weigh_eq_ok hw
    refine ⟨l, w, x, y, rows, score, rfl, hl, hx, hy, hrows, hscore, hsum, hfinite, hpositive,
      ?_, ?_⟩
    · rw [hleft]
      exact Call.weight?_after_putEdge _ (Weight.storable_iff.mpr ⟨hfinite, hpositive⟩)
    · rw [PairTask.process, hread]
      exact scorer.record_looks x y t.context.index hdistinct there there'
  · exact PairTask.entities_eq_error hw (by simp) (by simp) (by simp)
  · exact ⟨_, Store.putEdge_eq_ok.mpr ⟨Weight.storable_iff.mpr ⟨hfinite, hpositive⟩, rfl⟩⟩

def blankTask : PairTask :=
  ⟨⟨⟨1⟩⟩, firstEntity, secondEntity, ⟨.ofList [(⟨⟨7⟩⟩, ⟨⟨1⟩⟩)], ⟨[]⟩⟩⟩

def processBlank (score : Binary64) :
    Outcome (Error Binary64) (PairOutcome Binary64) × Memory Binary64 :=
  (blankTask.process (fun _ _ => .ok (some ∅)) (evenScorer score)).run ⟨∅, ⟨[], 0⟩⟩

theorem nanScore_leaves_singletons :
    (processBlank .nan).1 = .error (.scoring (.invalidScore .nan)) ∧
    ((processBlank .nan).2.store.clusters ⟨⟨1⟩⟩).length = 2 ∧
    ((processBlank .nan).2.store.graph ⟨⟨1⟩⟩).edges = ∅ ∧
    ∃ l w, (processBlank .zero).1 = .ok (.edge ⟨⟨⟨1⟩⟩, l⟩ w) ∧ w = .add .zero defaultBias ∧
      (processBlank .zero).2.store.weight? ⟨⟨⟨1⟩⟩, l⟩ = some w := by
  have hnan : (processBlank .nan).1 = .error (.scoring (.invalidScore .nan)) := by decide +kernel
  obtain ⟨hfailed, -⟩ := failed_pair_leaves_edges blankTask (fun _ _ => .ok (some ∅))
    (evenScorer .nan) ⟨∅, ⟨[], 0⟩⟩ .empty
  obtain ⟨-, -, hstored, -⟩ := failed_pair_leaves_edges blankTask (fun _ _ => .ok (some ∅))
    (evenScorer .zero) ⟨∅, ⟨[], 0⟩⟩ .empty
  have hedges := (hfailed fun o ho => by cases hnan.symm.trans ho).1 ⟨⟨1⟩⟩
  refine ⟨hnan, by decide +kernel, hedges.1, ?_⟩
  cases hscored : (processBlank .zero).1 with
  | ok o =>
    obtain ⟨l, w, x, y, rows, score, rfl, -, -, -, -, hscore, hw, -, -, hweight, -⟩ :=
      hstored (by decide) o hscored
    cases hscore
    exact ⟨l, w, rfl, hw, hweight⟩
  | error | crash =>
    have hmeets : (processBlank .zero).1.meets (fun _ => true) = true := by decide +kernel
    rw [hscored] at hmeets
    cases hmeets

end RecordLinkage
