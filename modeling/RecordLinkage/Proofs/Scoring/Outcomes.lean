import RecordLinkage.Proofs.Recording.Script
import RecordLinkage.Proofs.Store.Commute
import RecordLinkage.Proofs.Store.Parts

namespace RecordLinkage

variable {ω : Type} [Weight ω]

namespace Graph

variable {G : Graph ω} {u v : VertexId}

def Gone (G : Graph ω) (v : VertexId) : Prop := v ∈ G.retired ∧ G.live v = false

theorem Gone.taken (h : G.Gone v) : G.taken v = true := taken_iff.mpr (.inr h.1)

theorem ensure_of_taken (e : EntityKey) (h : G.taken v = true) : G.ensure v e = G := by
  rw [ensure, if_pos h]

theorem cluster?_ensure_of_not_taken (e : EntityKey) (h : G.taken v = false) :
    (G.ensure v e).cluster? v = some (.singleton e) := by
  rw [cluster?_ensure, if_pos ⟨h, rfl⟩]

/-- Only what is gone cannot be made sure of. -/
theorem live_ensure_self (G : Graph ω) (v : VertexId) (e : EntityKey) :
    (G.ensure v e).live v = true ↔ ¬ G.Gone v := by
  cases htaken : G.taken v with
  | false =>
    have hlive := live_iff.mpr ⟨_, cluster?_ensure_of_not_taken e htaken⟩
    have hthere : ¬ G.Gone v := fun hgone => by
      rw [hgone.taken] at htaken
      cases htaken
    exact ⟨fun _ => hthere, fun _ => hlive⟩
  | true =>
    rw [ensure_of_taken e htaken]
    rcases taken_iff.mp htaken with hlive | hretired
    · simp [Gone, hlive]
    · simp [Gone, hretired]

theorem gone_ensure (G : Graph ω) (u : VertexId) (e : EntityKey) (v : VertexId) :
    (G.ensure u e).Gone v ↔ G.Gone v := by
  rw [Gone, Gone, retired_ensure]
  apply and_congr_right
  intro hretired
  have htaken : ¬ (G.taken u = false ∧ u = v) := by
    rintro ⟨hfree, rfl⟩
    rw [taken_iff.mpr (.inr hretired)] at hfree
    cases hfree
  rw [live_eq_isSome, live_eq_isSome, cluster?_ensure, if_neg htaken]

end Graph

namespace Call

/-- A vertex that is live or retired is not made again, and nothing else is written. -/
theorem after_singleton_of_taken {m : Memory ω} {g : GraphId} {e : EntityKey}
    (h : (m.store.graph g).taken (e.singletonId g) = true) : after m (.singleton g e) = m := by
  have hpart : m.store.part g = some (m.store.graph g) := by
    cases hnone : m.store.part g with
    | some G => rw [Store.graph_eq, hnone, Option.getD_some]
    | none =>
      rw [Store.graph_eq, hnone] at h
      cases h
  have hgraphs : SortedMap.put m.store.graphs g (m.store.graph g) = m.store.graphs := by
    apply SortedMap.ext_get?
    intro g'
    rw [SortedMap.get?_put]
    split
    · rename_i hg
      exact hg ▸ hpart.symm
    · rfl
  rw [after_singleton, Graph.ensure_of_taken e h, Store.setGraph, hgraphs]

end Call

/-- How the recording of two entities ends, and what it leaves: the vertices are made sure of one
after the other, until one of them is gone. -/
inductive Recorded (g : GraphId) (a b : EntityKey) (weight : Outcome (ScoringError ω) ω)
    (m : Memory ω) : Outcome (Error ω) (PairOutcome ω) × Memory ω → Prop where
  | firstGone (gone : (m.store.graph g).Gone (a.singletonId g)) :
    Recorded g a b weight m (.error (.store (.vertexNotFound ⟨g, a.singletonId g⟩)), m)
  | self (same : a = b) (there : ¬ (m.store.graph g).Gone (a.singletonId g)) :
    Recorded g a b weight m (.ok (.singleton ⟨g, a.singletonId g⟩), Call.after m (.singleton g a))
  | secondGone (distinct : a ≠ b) (gone : (m.store.graph g).Gone (b.singletonId g)) :
    Recorded g a b weight m
      (.error (.store (.vertexNotFound ⟨g, b.singletonId g⟩)), Call.after m (.singleton g a))
  | scored (distinct : a ≠ b) (there : ¬ (m.store.graph g).Gone (a.singletonId g))
    (there' : ¬ (m.store.graph g).Gone (b.singletonId g)) :
    Recorded g a b weight m ((linking g (a.singletonId g) (b.singletonId g) weight).2,
      (linking g (a.singletonId g) (b.singletonId g) weight).1.foldl Call.after
        (Call.after (Call.after m (.singleton g a)) (.singleton g b)))

open Program

namespace Scorer

variable {g : GraphId} {e : EntityKey} {m : Memory ω}

theorem run_liveSingleton (g : GraphId) (e : EntityKey) (m : Memory ω) :
    (liveSingleton g e).run m =
      (if ((m.store.graph g).ensure (e.singletonId g) e).live (e.singletonId g) then
        .ok ⟨g, e.singletonId g⟩
      else .error (.store (.vertexNotFound ⟨g, e.singletonId g⟩)),
      Call.after m (.singleton g e)) := by
  have hmade :
      (singleton g e).run m = (.ok ⟨g, e.singletonId g⟩, Call.after m (.singleton g e)) := rfl
  unfold liveSingleton
  rw [run_bind_of_ok hmade, run_bind_of_ok (Drain.run_live _ _), Call.after_singleton,
    Store.graph_setGraph_self]
  split <;> rfl

theorem run_liveSingleton_of_gone (h : (m.store.graph g).Gone (e.singletonId g)) :
    (liveSingleton g e).run m =
      (.error (.store (.vertexNotFound ⟨g, e.singletonId g⟩)), m) := by
  have hlive :=
    mt (Graph.live_ensure_self (m.store.graph g) (e.singletonId g) e).mp (not_not_intro h)
  rw [run_liveSingleton, if_neg hlive, Call.after_singleton_of_taken h.taken]

theorem run_liveSingleton_of_there (h : ¬ (m.store.graph g).Gone (e.singletonId g)) :
    (liveSingleton g e).run m = (.ok ⟨g, e.singletonId g⟩, Call.after m (.singleton g e)) := by
  rw [run_liveSingleton, if_pos ((Graph.live_ensure_self _ _ e).mpr h)]

/-- Where both vertices are there, nothing but the weight of a pair decides how it ends. -/
theorem run_linking {weight : Outcome (ScoringError ω) ω}
    (hweight : ∀ w, weight = .ok w → Weight.storable w = true) (g : GraphId) (u v : VertexId)
    (m : Memory ω) :
    (do
      let w ← ofScoring weight
      let e ← ofStore (Edge.between ⟨g, u⟩ ⟨g, v⟩)
      putEdge e w
      return PairOutcome.edge e w : Program ω (PairOutcome ω)).run m =
        ((linking g u v weight).2, (linking g u v weight).1.foldl Call.after m) := by
  unfold linking
  cases weight with
  | error cause => rfl
  | crash => rfl
  | ok w =>
    rw [Edge.between, if_neg (not_not_intro rfl)]
    cases Link.between? u v with
    | none => rfl
    | some l =>
      have hstored := (Store.putEdge_eq_ok (s := m.store) (e := ⟨g, l⟩)).mpr ⟨hweight w rfl, rfl⟩
      have hput : (putEdge ⟨g, l⟩ w).run m = (.ok (), Call.after m (.putEdge ⟨g, l⟩ w)) := by
        rw [Drain.run_putEdge, Call.after, Call.perform, hstored]
      exact run_bind_of_ok hput _

theorem run_record (s : Scorer ω) (g : GraphId) (a : EntityKey) (entityA : Entity) (b : EntityKey)
    (entityB : Entity) (index : PropertyIndex) (m : Memory ω) :
    Recorded g a b (s.weigh entityA entityB index) m
      ((s.record g a entityA b entityB index).run m) := by
  unfold record
  by_cases hgone : (m.store.graph g).Gone (a.singletonId g)
  · have hfirst := run_liveSingleton_of_gone hgone
    split
    · rw [run_bind, hfirst]
      exact .firstGone hgone
    · rw [run_bind, hfirst]
      exact .firstGone hgone
  have hfirst := run_liveSingleton_of_there hgone
  split
  · rename_i hsame
    rw [run_bind_of_ok hfirst]
    exact .self hsame hgone
  rename_i hdistinct
  rw [run_bind_of_ok hfirst]
  -- The second vertex is looked for where the first one has been made sure of.
  have hgraph : (Call.after m (.singleton g a)).store.graph g =
      (m.store.graph g).ensure (a.singletonId g) a := Store.graph_setGraph_self _ _ _
  by_cases hgone' : (m.store.graph g).Gone (b.singletonId g)
  · have hsecond := run_liveSingleton_of_gone (m := Call.after m (.singleton g a))
      (hgraph ▸ (Graph.gone_ensure _ _ _ _).mpr hgone')
    rw [run_bind, hsecond]
    exact .secondGone hdistinct hgone'
  · have hsecond := run_liveSingleton_of_there (m := Call.after m (.singleton g a))
      (hgraph ▸ mt (Graph.gone_ensure _ _ _ _).mp hgone')
    rw [run_bind_of_ok hsecond, run_linking (fun w hw => weigh_storable hw)]
    exact .scored hdistinct hgone hgone'

/-- A pair whose vertices are there has found both of them live when it looked them up. -/
theorem record_looks (s : Scorer ω) {a b : EntityKey} (entityA entityB : Entity)
    (index : PropertyIndex) (distinct : a ≠ b)
    (there : ¬ (m.store.graph g).Gone (a.singletonId g))
    (there' : ¬ (m.store.graph g).Gone (b.singletonId g)) :
    ∀ e, e = a ∨ e = b → ∃ x ∈ (s.record g a entityA b entityB index).trace m,
      x.call = .cluster ⟨g, e.singletonId g⟩ ∧ x.before.store.live ⟨g, e.singletonId g⟩ = true := by
  have hlook (e : EntityKey) (m : Memory ω) (hthere : ¬ (m.store.graph g).Gone (e.singletonId g)) :
      ∃ x ∈ (liveSingleton g e).trace m,
        x.call = .cluster ⟨g, e.singletonId g⟩ ∧
          x.before.store.live ⟨g, e.singletonId g⟩ = true := by
    refine ⟨⟨Call.after m (.singleton g e), .cluster ⟨g, e.singletonId g⟩⟩,
      List.mem_cons_of_mem _ List.mem_cons_self, rfl, ?_⟩
    rw [Store.live, Call.after_singleton, Store.graph_setGraph_self]
    exact (Graph.live_ensure_self _ _ e).mpr hthere
  have hthere' : ¬ ((Call.after m (.singleton g a)).store.graph g).Gone (b.singletonId g) := by
    rw [Call.after_singleton, Store.graph_setGraph_self]
    exact mt (Graph.gone_ensure _ _ _ _).mp there'
  unfold record
  rw [if_neg distinct, trace_bind_of_ok (run_liveSingleton_of_there there),
    trace_bind_of_ok (run_liveSingleton_of_there hthere')]
  rintro e (rfl | rfl)
  · obtain ⟨x, hx, hfound⟩ := hlook e m there
    exact ⟨x, List.mem_append_left _ hx, hfound⟩
  · obtain ⟨x, hx, hfound⟩ := hlook e _ hthere'
    exact ⟨x, List.mem_append_right _ (List.mem_append_left _ hx), hfound⟩

end Scorer

end RecordLinkage
