import RecordLinkage.Block.Run
import RecordLinkage.Proofs.Graph.Contraction

namespace RecordLinkage

/-- The pairs of an ascending list are those of two members in order, or of one with itself. -/
theorem mem_pairsOf {α : Type} [SortKey α] {l : List α}
    (h : l.Pairwise fun a b => compare a b = .lt) {a b : α} :
    (a, b) ∈ pairsOf l ↔ a ∈ l ∧ b ∈ l ∧ (a = b ∨ compare a b = .lt) := by
  induction l with
  | nil => simp [pairsOf]
  | cons c l ih =>
    obtain ⟨hc, hl⟩ := List.pairwise_cons.mp h
    have hmem : (a, b) ∈ pairsOf (c :: l) ↔ a = c ∧ (b = c ∨ b ∈ l) ∨ (a, b) ∈ pairsOf l := by
      simp only [pairsOf, List.cons_append, List.mem_cons, List.mem_append, List.mem_map,
        Prod.mk.injEq]
      constructor
      · intro hab
        rcases hab with ⟨rfl, rfl⟩ | ⟨b', hb', rfl, rfl⟩ | hab
        · exact .inl ⟨rfl, .inl rfl⟩
        · exact .inl ⟨rfl, .inr hb'⟩
        · exact .inr hab
      · intro hab
        rcases hab with ⟨rfl, rfl | hb⟩ | hab
        · exact .inl ⟨rfl, rfl⟩
        · exact .inr (.inl ⟨b, hb, rfl, rfl⟩)
        · exact .inr (.inr hab)
    rw [hmem, ih hl, List.mem_cons, List.mem_cons]
    constructor
    · intro hab
      rcases hab with ⟨rfl, rfl | hb⟩ | ⟨ha, hb, hab⟩
      · exact ⟨.inl rfl, .inl rfl, .inl rfl⟩
      · exact ⟨.inl rfl, .inr hb, .inr (hc b hb)⟩
      · exact ⟨.inr ha, .inr hb, hab⟩
    · intro hab
      obtain ⟨rfl | ha, hb, hab⟩ := hab
      · exact .inl ⟨rfl, hb⟩
      · rcases hb with rfl | hb
        · rcases hab with rfl | hab
          · exact .inl ⟨rfl, .inl rfl⟩
          · exact absurd hab (by rw [SortKey.lt_asymm (hc a ha)]; decide)
        · exact .inr ⟨ha, hb, hab⟩

namespace Outcome

variable {ε α β : Type}

def value? : Outcome ε α → Option α
  | .ok a => some a
  | _ => none

theorem value?_eq_some {r : Outcome ε α} {a : α} : r.value? = some a ↔ r = .ok a := by
  cases r <;> simp [value?]

theorem bind_eq_ok {r : Outcome ε α} {f : α → Outcome ε β} {b : β} :
    (r >>= f) = .ok b ↔ ∃ a, r = .ok a ∧ f a = .ok b := by
  constructor
  · intro h
    cases r with
    | ok a => exact ⟨a, rfl, h⟩
    | error e => cases h
    | crash => cases h
  · intro h
    obtain ⟨a, rfl, h⟩ := h
    exact h

theorem mapError_eq_ok {δ : Type} {r : Outcome ε α} {f : ε → δ} {a : α} :
    r.mapError f = .ok a ↔ r = .ok a := by
  cases r <;> simp [mapError]

end Outcome

variable {ω : Type} [Weight ω]

namespace Program

theorem run_attempt {α : Type} (p : Program ω α) (m : Memory ω) :
    p.attempt.run m = (.ok (p.run m).1, (p.run m).2) := by
  induction p generalizing m with
  | done r => rfl
  | ask c next ih => exact ih _ _

theorem run_done_bind_eq_ok {α β : Type} {r : Outcome (Error ω) α} {f : α → Program ω β}
    {m m' : Memory ω} {b : β} :
    (.done r >>= f : Program ω β).run m = (.ok b, m') ↔
      ∃ a, r = .ok a ∧ (f a).run m = (.ok b, m') := by
  constructor
  · intro h
    cases r with
    | ok a => exact ⟨a, rfl, h⟩
    | error e => cases h
    | crash => cases h
  · intro h
    obtain ⟨a, rfl, h⟩ := h
    exact h

end Program

open Program

theorem Scorer.weigh_storable {scorer : Scorer ω} {x y : Entity} {index : PropertyIndex} {w : ω}
    (h : scorer.weigh x y index = .ok w) : Weight.storable w = true := by
  obtain ⟨rows, -, h⟩ := Outcome.bind_eq_ok.mp h
  obtain ⟨score, -, h⟩ := Outcome.bind_eq_ok.mp h
  dsimp only at h
  split at h
  · rename_i hstorable
    cases h
    exact hstorable
  · cases h

def BlockContext.weigh (context : BlockContext) (source : EntitySource ω) (scorer : Scorer ω)
    (a b : EntityKey) : Outcome (Error ω) ω := do
  let x ← source.require context.syncs a
  let y ← source.require context.syncs b
  (scorer.weigh x y context.index).mapError .scoring

/-- The distance of two entities: the weight of their pair, in ascending order. -/
def BlockContext.distance? (context : BlockContext) (source : EntitySource ω) (scorer : Scorer ω)
    (a b : EntityKey) : Option ω :=
  match compare a b with
  | .lt => (context.weigh source scorer a b).value?
  | .eq => none
  | .gt => (context.weigh source scorer b a).value?

namespace BlockContext

variable {context : BlockContext} {source : EntitySource ω} {scorer : Scorer ω} {a b : EntityKey}
  {w : ω}

theorem distance?_comm (context : BlockContext) (source : EntitySource ω) (scorer : Scorer ω)
    (a b : EntityKey) :
    context.distance? source scorer a b = context.distance? source scorer b a := by
  have hswap : compare b a = (compare a b).swap := Std.OrientedCmp.eq_swap
  rw [distance?, distance?, hswap]
  cases h : compare a b <;> rfl

theorem distance?_of_lt (hab : compare a b = .lt) (h : context.weigh source scorer a b = .ok w) :
    context.distance? source scorer a b = some w := by
  rw [distance?, hab]
  exact Outcome.value?_eq_some.mpr h

theorem weigh_storable (h : context.weigh source scorer a b = .ok w) :
    Weight.storable w = true := by
  obtain ⟨x, -, h⟩ := Outcome.bind_eq_ok.mp h
  obtain ⟨y, -, h⟩ := Outcome.bind_eq_ok.mp h
  exact Scorer.weigh_storable (Outcome.mapError_eq_ok.mp h)

theorem distance?_storable (h : context.distance? source scorer a b = some w) :
    Weight.storable w = true := by
  rw [distance?] at h
  split at h
  · exact weigh_storable (Outcome.value?_eq_some.mp h)
  · cases h
  · exact weigh_storable (Outcome.value?_eq_some.mp h)

end BlockContext

inductive Graph.Scored (source : EntitySource ω) (scorer : Scorer ω) (G : Graph ω) (t : PairTask) :
    Graph ω → Prop where
  | self (same : t.a = t.b) : Scored source scorer G t (G.ensure (t.a.singletonId t.graph) t.a)
  | pair {l : Link} {w : ω} (distinct : t.a ≠ t.b)
    (link : Link.between? (t.a.singletonId t.graph) (t.b.singletonId t.graph) = some l)
    (weighs : t.context.weigh source scorer t.a t.b = .ok w) :
    Scored source scorer G t
      (((G.ensure (t.a.singletonId t.graph) t.a).ensure (t.b.singletonId t.graph) t.b).putLink l w)

inductive Graph.ScoredAll (source : EntitySource ω) (scorer : Scorer ω) :
    Graph ω → List PairTask → Graph ω → Prop where
  | nil (G : Graph ω) : ScoredAll source scorer G [] G
  | cons {G G' G'' : Graph ω} {t : PairTask} {rest : List PairTask}
    (first : G.Scored source scorer t G') (later : ScoredAll source scorer G' rest G'') :
    ScoredAll source scorer G (t :: rest) G''

namespace Scorer

theorem run_liveSingleton_ok {g : GraphId} {e : EntityKey} {m m' : Memory ω} {k : VertexKey}
    (h : (liveSingleton g e).run m = (.ok k, m')) :
    k = ⟨g, e.singletonId g⟩ ∧
      m.Becomes g ((m.store.graph g).ensure (e.singletonId g) e) m' := by
  unfold liveSingleton at h
  obtain ⟨k', m₁, hmade, h⟩ := run_bind_eq_ok.mp h
  obtain ⟨live, m₂, hlive, h⟩ := run_bind_eq_ok.mp h
  have hbecomes : m.Becomes g ((m.store.graph g).ensure (e.singletonId g) e) m₁ := by
    cases hmade
    exact Store.graph_singleton m.store g e
  have hk : k' = ⟨g, e.singletonId g⟩ := by
    cases hmade
    rfl
  rw [Drain.run_live] at hlive
  cases hlive
  split at h
  · cases h
    exact ⟨hk, hbecomes⟩
  · cases h

end Scorer

theorem PairTask.run_process_ok {t : PairTask} {source : EntitySource ω} {scorer : Scorer ω}
    {m m' : Memory ω} {outcome : PairOutcome ω}
    (h : (t.process source scorer).run m = (.ok outcome, m')) :
    ∃ G, (m.store.graph t.graph).Scored source scorer t G ∧ m.Becomes t.graph G m' := by
  unfold process at h
  obtain ⟨⟨x, y⟩, hread, h⟩ := run_done_bind_eq_ok.mp h
  dsimp only at h
  unfold Scorer.record at h
  by_cases hsame : t.a = t.b
  · rw [if_pos hsame] at h
    obtain ⟨k, m₁, hk, h⟩ := run_bind_eq_ok.mp h
    obtain ⟨-, hbecomes⟩ := Scorer.run_liveSingleton_ok hk
    cases h
    exact ⟨_, .self hsame, hbecomes⟩
  · rw [if_neg hsame] at h
    obtain ⟨a, m₁, ha, hrest⟩ := run_bind_eq_ok.mp h
    obtain ⟨b, m₂, hb, hscore⟩ := run_bind_eq_ok.mp hrest
    obtain ⟨w, hw, hedge⟩ := run_done_bind_eq_ok.mp hscore
    obtain ⟨rfl, hbecomesA⟩ := Scorer.run_liveSingleton_ok ha
    obtain ⟨rfl, hbecomesB⟩ := Scorer.run_liveSingleton_ok hb
    obtain ⟨e, m₃, he, hwrite⟩ := run_bind_eq_ok.mp hedge
    obtain ⟨l, hl, rfl, rfl⟩ := Drain.edgeWithin_eq_ok.mp he
    obtain ⟨_, m₄, hput, hdone⟩ := run_bind_eq_ok.mp hwrite
    cases hdone
    -- The entities that were scored are those that were read.
    have hweigh : t.context.weigh source scorer t.a t.b = .ok w := by
      obtain ⟨x', hx', hread⟩ := Outcome.bind_eq_ok.mp hread
      rw [selfPair, decide_eq_false hsame] at hread
      obtain ⟨y', hy', hread⟩ := Outcome.bind_eq_ok.mp hread
      cases hread
      rw [BlockContext.weigh]
      refine Outcome.bind_eq_ok.mpr ⟨x, hx', Outcome.bind_eq_ok.mpr ⟨y, hy', ?_⟩⟩
      exact Outcome.mapError_eq_ok.mpr (Outcome.mapError_eq_ok.mp hw)
    refine ⟨_, .pair hsame hl hweigh, ?_⟩
    have hstored := hbecomesA.trans (hbecomesA.graph ▸ hbecomesB)
    have hput := (Drain.run_putEdge_ok hput).2
    rw [hstored.graph] at hput
    exact hstored.trans hput

end RecordLinkage
