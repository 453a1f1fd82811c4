import RecordLinkage.Proofs.Block.Scored
import RecordLinkage.Proofs.Graph.Linked

namespace RecordLinkage

variable {ω : Type} [Weight ω] {source : EntitySource ω} {scorer : Scorer ω} {g : GraphId}
  {context : BlockContext}

open Program

theorem Countdown.failed_le_settle {α : Type} (c : Countdown) (r : Outcome (Error ω) α) :
    c.failed ≤ (c.settle r).failed := by
  cases r with
  | ok a => exact Nat.le_refl _
  | error e => exact Nat.le_succ _
  | crash => exact Nat.le_refl _

theorem failed_le_run_recordAll {tasks : List PairTask} {s s' : BlockState ω} {m m' : Memory ω}
    (h : (recordAll source scorer tasks s).run m = (.ok s', m')) :
    s.countdown.failed ≤ s'.countdown.failed := by
  induction tasks generalizing s m with
  | nil =>
    cases h
    exact Nat.le_refl _
  | cons t rest ih =>
    unfold recordAll at h
    rw [run_bind_of_ok (run_attempt _ m)] at h
    have hsettle := s.countdown.failed_le_settle ((t.process source scorer).run m).1
    dsimp only at h
    split at h
    · cases h
      exact hsettle
    · exact Nat.le_trans hsettle (ih h)

/-- Where no pair failed and no worker was lost, every pair was recorded. -/
theorem run_recordAll_ok {tasks : List PairTask} {s s' : BlockState ω} {m m' : Memory ω}
    (h : (recordAll source scorer tasks s).run m = (.ok s', m'))
    (hfailed : s'.countdown.failed ≤ s.countdown.failed) (halive : s'.crashed = false)
    (hgraph : ∀ t ∈ tasks, t.graph = g) :
    (m.store.graph g).ScoredAll source scorer tasks (m'.store.graph g) := by
  induction tasks generalizing s m with
  | nil =>
    cases h
    exact .nil _
  | cons t rest ih =>
    unfold recordAll at h
    rw [run_bind_of_ok (run_attempt _ m)] at h
    rcases hrun : (t.process source scorer).run m with ⟨r, m₁⟩
    rw [hrun] at h
    dsimp only at h
    split at h
    · rename_i hcrashed
      cases h
      rw [hcrashed] at halive
      cases halive
    · rename_i hcrashed
      -- A failure would be counted, and counts do not fall later.
      have hlater := failed_le_run_recordAll h
      cases r with
      | crash => simp [BlockState.after] at hcrashed
      | error e =>
        have hcount : (s.after (.error e : Outcome (Error ω) _)).countdown.failed =
          s.countdown.failed + 1 := rfl
        omega
      | ok outcome =>
        obtain ⟨G, hscored, hbecomes⟩ := PairTask.run_process_ok hrun
        have hrest := ih h hfailed fun t' ht' => hgraph t' (List.mem_cons_of_mem t ht')
        rw [hgraph t List.mem_cons_self] at hscored hbecomes
        rw [hbecomes.graph] at hrest
        exact .cons hscored hrest

/-- The live vertices are those of certain entities, and none was ever retired. -/
structure Graph.Singletons (g : GraphId) (seen : EntityKey → Prop) (G : Graph ω) : Prop where
  cluster : ∀ v c, G.cluster? v = some c ↔ ∃ e, seen e ∧ v = e.singletonId g ∧ c = .singleton e
  retired : ∀ v, ¬ v ∈ G.retired

/-- A graph holds what some pairs of a block wrote: the vertices of their entities and, between
different ones, links of their weights. -/
structure Graph.Records (source : EntitySource ω) (scorer : Scorer ω) (g : GraphId)
    (context : BlockContext) (past : List (EntityKey × EntityKey)) (G : Graph ω) : Prop
    extends G.Canonical, G.Singletons g (fun e => ∃ p ∈ past, e = p.1 ∨ e = p.2) where
  distance : ∀ u v w, G.distance? u v = some w ↔
    ∃ p ∈ past, p.1 ≠ p.2 ∧ context.weigh source scorer p.1 p.2 = .ok w ∧
      (u = p.1.singletonId g ∧ v = p.2.singletonId g ∨ u = p.2.singletonId g ∧ v = p.1.singletonId g)

namespace Graph

variable {G : Graph ω} {past : List (EntityKey × EntityKey)}

theorem Singletons.congr {seen seen' : EntityKey → Prop} (h : G.Singletons g seen)
    (hseen : ∀ e, seen e ↔ seen' e) : G.Singletons g seen' := by
  have hsame : seen = seen' := by
    funext e
    exact propext (hseen e)
  exact hsame ▸ h

theorem Singletons.putLink {seen : EntityKey → Prop} (h : G.Singletons g seen) (l : Link) (w : ω) :
    (G.putLink l w).Singletons g seen := ⟨h.cluster, h.retired⟩

theorem Singletons.ensure {seen : EntityKey → Prop} (h : G.Singletons g seen) {e : EntityKey}
    (hapart : ∀ e', seen e' → e'.singletonId g = e.singletonId g → e' = e) :
    (G.ensure (e.singletonId g) e).Singletons g (fun e' => seen e' ∨ e' = e) := by
  refine ⟨?_, fun v => retired_ensure G _ e ▸ h.retired v⟩
  intro v c
  rw [cluster?_ensure]
  cases htaken : G.taken (e.singletonId g) with
  | true =>
    -- In a graph of singletons a name is taken only by its own entity.
    have hseen : seen e := by
      rcases taken_iff.mp htaken with hlive | hretired
      · obtain ⟨c, hc⟩ := live_iff.mp hlive
        obtain ⟨e', he', hname, -⟩ := (h.cluster _ _).mp hc
        exact hapart e' he' hname.symm ▸ he'
      · exact absurd hretired (h.retired _)
    rw [if_neg (by simp), h.cluster]
    constructor
    · intro hc
      obtain ⟨e', he', hc⟩ := hc
      exact ⟨e', .inl he', hc⟩
    · intro hc
      obtain ⟨e', he' | rfl, hc⟩ := hc
      · exact ⟨e', he', hc⟩
      · exact ⟨e', hseen, hc⟩
  | false =>
    have hnone := cluster?_of_not_taken htaken
    by_cases hv : e.singletonId g = v
    · rw [if_pos ⟨rfl, hv⟩]
      constructor
      · intro hc
        cases hc
        exact ⟨e, .inr rfl, hv.symm, rfl⟩
      · intro hc
        obtain ⟨e', he' | rfl, hname, rfl⟩ := hc
        · rw [hv, (h.cluster v _).mpr ⟨e', he', hname, rfl⟩] at hnone
          cases hnone
        · rfl
    · rw [if_neg (fun hn => hv hn.2), h.cluster]
      constructor
      · intro hc
        obtain ⟨e', he', hc⟩ := hc
        exact ⟨e', .inl he', hc⟩
      · intro hc
        obtain ⟨e', he' | rfl, hc⟩ := hc
        · exact ⟨e', he', hc⟩
        · exact absurd hc.1.symm hv

theorem Records.empty : (∅ : Graph ω).Records source scorer g context [] where
  toCanonical := .empty
  cluster v c := by simp
  retired := not_mem_retired_empty
  distance u v w := by
    simp only [List.not_mem_nil, false_and, exists_false, iff_false]
    rw [distance?]
    cases Link.between? u v with
    | none =>
      intro hw
      cases hw
    | some l =>
      intro hw
      cases hw

/-- The entities of some pairs are named differently. -/
def PairsApart (g : GraphId) (pairs : List (EntityKey × EntityKey)) : Prop :=
  ∀ p ∈ pairs, ∀ q ∈ pairs, ∀ e e', (e = p.1 ∨ e = p.2) → (e' = q.1 ∨ e' = q.2) →
    e.singletonId g = e'.singletonId g → e = e'

/-- Pairs in order whose ends are named alike are the same. -/
theorem PairsApart.eq_of_names {pairs : List (EntityKey × EntityKey)} (h : PairsApart g pairs)
    (hordered : ∀ p ∈ pairs, p.1 = p.2 ∨ compare p.1 p.2 = .lt) {p q : EntityKey × EntityKey}
    (hp : p ∈ pairs) (hq : q ∈ pairs) (hpne : p.1 ≠ p.2) (hqne : q.1 ≠ q.2)
    (hnames : q.1.singletonId g = p.1.singletonId g ∧ q.2.singletonId g = p.2.singletonId g ∨
      q.1.singletonId g = p.2.singletonId g ∧ q.2.singletonId g = p.1.singletonId g) : q = p := by
  have hname {e e' : EntityKey} (he : e = q.1 ∨ e = q.2) (he' : e' = p.1 ∨ e' = p.2)
      (hid : e.singletonId g = e'.singletonId g) : e = e' := h q hq p hp e e' he he' hid
  rcases hnames with ⟨hfirst, hsecond⟩ | ⟨hfirst, hsecond⟩
  · exact Prod.ext (hname (.inl rfl) (.inl rfl) hfirst) (hname (.inr rfl) (.inr rfl) hsecond)
  · -- The other way round the pair would not be in order.
    have hfirst := hname (.inl rfl) (.inr rfl) hfirst
    have hsecond := hname (.inr rfl) (.inl rfl) hsecond
    have hlt := (hordered q hq).resolve_left hqne
    have hgt := (hordered p hp).resolve_left hpne
    rw [hfirst, hsecond, SortKey.lt_asymm hgt] at hlt
    cases hlt

theorem Records.scored {G' : Graph ω} {p : EntityKey × EntityKey}
    (h : G.Records source scorer g context past) (hapart : PairsApart g (past ++ [p]))
    (hordered : ∀ q ∈ past ++ [p], q.1 = q.2 ∨ compare q.1 q.2 = .lt)
    (hs : G.Scored source scorer ⟨g, p.1, p.2, context⟩ G') :
    G'.Records source scorer g context (past ++ [p]) := by
  obtain ⟨a, b⟩ := p
  have hnew : (a, b) ∈ past ++ [(a, b)] := List.mem_append_right past List.mem_cons_self
  have hseen (e e' : EntityKey) (he : ∃ q ∈ past, e = q.1 ∨ e = q.2) (he' : e' = a ∨ e' = b)
      (hname : e.singletonId g = e'.singletonId g) : e = e' := by
    obtain ⟨q, hq, he⟩ := he
    exact hapart q (List.mem_append_left _ hq) (a, b) hnew e e' he he' hname
  have hcover (e : EntityKey) : (((∃ q ∈ past, e = q.1 ∨ e = q.2) ∨ e = a) ∨ e = b) ↔
      ∃ q ∈ past ++ [(a, b)], e = q.1 ∨ e = q.2 := by
    simp [or_and_right, exists_or, or_assoc]
  cases hs with
  | self same =>
    dsimp only at same
    subst same
    have hsingletons := h.toSingletons.ensure fun e he => hseen e a he (.inl rfl)
    have hcover' (e : EntityKey) : (∃ q ∈ past, e = q.1 ∨ e = q.2) ∨ e = a ↔
        ∃ q ∈ past ++ [(a, a)], e = q.1 ∨ e = q.2 := by
      rw [← hcover, or_assoc, or_self]
    refine ⟨h.toCanonical.congr (edges_ensure ..), hsingletons.congr hcover', ?_⟩
    intro u v w
    rw [distance?_congr (edges_ensure ..), h.distance]
    simp [or_and_right, exists_or]
  | @pair l w distinct link weighs =>
    have hapartA := h.toSingletons.ensure fun e he => hseen e a he (.inl rfl)
    have hsingletons := hapartA.ensure (e := b) fun e he hname => by
      rcases he with he | rfl
      · exact hseen e b he (.inr rfl) hname
      · exact hapart _ hnew _ hnew e b (.inl rfl) (.inr rfl) hname
    have hcanonical := h.toCanonical.congr
      ((edges_ensure (G.ensure (a.singletonId g) a) (b.singletonId g) b).trans (edges_ensure ..))
    refine ⟨hcanonical.putLink (Link.between?_spec link).1 w,
      (hsingletons.congr hcover).putLink l w, ?_⟩
    intro u v w'
    rw [distance?_putLink link, distance?_congr (edges_ensure ..), distance?_congr (edges_ensure ..)]
    split
    · rename_i hends
      constructor
      · intro hw
        cases hw
        exact ⟨(a, b), hnew, distinct, weighs, hends⟩
      · intro hw
        obtain ⟨q, hq, hne, hweigh, hends'⟩ := hw
        -- Another pair with these ends would be this pair.
        have hqab : q = (a, b) := by
          apply hapart.eq_of_names hordered hnew hq distinct hne
          rcases hends with ⟨rfl, rfl⟩ | ⟨rfl, rfl⟩ <;>
            rcases hends' with ⟨hu, hv⟩ | ⟨hu, hv⟩ <;> simp [← hu, ← hv]
        subst hqab
        rw [weighs] at hweigh
        cases hweigh
        rfl
    · rename_i hends
      rw [h.distance]
      constructor
      · intro hw
        obtain ⟨q, hq, hw⟩ := hw
        exact ⟨q, List.mem_append_left _ hq, hw⟩
      · intro hw
        obtain ⟨q, hq, hne, hweigh, hends'⟩ := hw
        rcases List.mem_append.mp hq with hq | hq
        · exact ⟨q, hq, hne, hweigh, hends'⟩
        · rw [List.mem_singleton] at hq
          subst hq
          exact absurd hends' hends

theorem ScoredAll.records {rest : List (EntityKey × EntityKey)} {G' : Graph ω}
    (h : G.Records source scorer g context past) (hapart : PairsApart g (past ++ rest))
    (hordered : ∀ q ∈ past ++ rest, q.1 = q.2 ∨ compare q.1 q.2 = .lt)
    (hs : G.ScoredAll source scorer (rest.map fun p => ⟨g, p.1, p.2, context⟩) G') :
    G'.Records source scorer g context (past ++ rest) := by
  induction rest generalizing G past with
  | nil =>
    cases hs
    rw [List.append_nil]
    exact h
  | cons p rest ih =>
    rw [List.map_cons] at hs
    cases hs with
    | cons first later =>
      have hsplit : past ++ p :: rest = (past ++ [p]) ++ rest := by simp
      rw [hsplit] at hapart hordered ⊢
      have hhead : G.Records source scorer g context past := h
      have hnext := hhead.scored
        (fun q hq q' hq' => hapart q (List.mem_append_left _ hq) q' (List.mem_append_left _ hq'))
        (fun q hq => hordered q (List.mem_append_left _ hq)) first
      exact ih hnext hapart hordered later

/-- Every pair of different entities found its weight and two different vertices. -/
theorem ScoredAll.pair {tasks : List PairTask} {G' : Graph ω}
    (h : G.ScoredAll source scorer tasks G') {t : PairTask} (ht : t ∈ tasks) (hab : t.a ≠ t.b) :
    t.a.singletonId t.graph ≠ t.b.singletonId t.graph ∧
      ∃ w, t.context.weigh source scorer t.a t.b = .ok w := by
  induction h with
  | nil => cases ht
  | cons first later ih =>
    rcases List.mem_cons.mp ht with rfl | ht
    · cases first with
      | self same => exact absurd same hab
      | pair distinct link weighs => exact ⟨Link.ne_of_between? link, _, weighs⟩
    · exact ih ht

end Graph

section

variable {entities : SortedSet EntityKey} {e e' : EntityKey}

theorem mem_candidatePairs : (e, e') ∈ candidatePairs entities ↔
    e ∈ entities ∧ e' ∈ entities ∧ (e = e' ∨ compare e e' = .lt) := mem_pairsOf entities.ascending

theorem candidatePairs_cover :
    (∃ p ∈ candidatePairs entities, e = p.1 ∨ e = p.2) ↔ e ∈ entities := by
  constructor
  · intro he
    obtain ⟨⟨a, b⟩, hp, he⟩ := he
    obtain ⟨ha, hb, -⟩ := mem_candidatePairs.mp hp
    rcases he with rfl | rfl
    · exact ha
    · exact hb
  · intro he
    exact ⟨(e, e), mem_candidatePairs.mpr ⟨he, he, .inl rfl⟩, .inl rfl⟩

theorem candidatePairs_total (he : e ∈ entities) (he' : e' ∈ entities) (hne : e ≠ e') :
    (e, e') ∈ candidatePairs entities ∨ (e', e) ∈ candidatePairs entities := by
  cases hcompare : compare e e' with
  | lt => exact .inl (mem_candidatePairs.mpr ⟨he, he', .inr hcompare⟩)
  | eq => exact absurd (SortKey.compare_eq_eq.mp hcompare) hne
  | gt => exact .inr (mem_candidatePairs.mpr ⟨he', he, .inr (SortKey.lt_of_gt hcompare)⟩)

/-- A block that is recorded in full names its entities apart and weighs all of its pairs. -/
theorem Graph.ScoredAll.apart {G G' : Graph ω}
    (h : G.ScoredAll source scorer
      ((candidatePairs entities).map fun p => ⟨g, p.1, p.2, context⟩) G') :
    PairsApart g (candidatePairs entities) ∧ ∀ p ∈ candidatePairs entities, p.1 ≠ p.2 →
      ∃ w, context.weigh source scorer p.1 p.2 = .ok w := by
  have hpair (p : EntityKey × EntityKey) (hp : p ∈ candidatePairs entities) (hne : p.1 ≠ p.2) :=
    h.pair (t := ⟨g, p.1, p.2, context⟩) (List.mem_map.mpr ⟨p, hp, rfl⟩) hne
  refine ⟨?_, fun p hp hne => (hpair p hp hne).2⟩
  intro p hp q hq e e' he he' hname
  have hmem := candidatePairs_cover.mp ⟨p, hp, he⟩
  have hmem' := candidatePairs_cover.mp ⟨q, hq, he'⟩
  apply Classical.byContradiction
  intro hne
  rcases candidatePairs_total hmem hmem' hne with h | h
  · exact (hpair _ h hne).1 hname
  · exact (hpair _ h (Ne.symm hne)).1 hname.symm

namespace Graph

variable {G : Graph ω}

theorem Records.cluster_iff (h : G.Records source scorer g context (candidatePairs entities))
    (v : VertexId) (c : Cluster ω) : G.cluster? v = some c ↔
      ∃ e ∈ entities, v = e.singletonId g ∧ c = .singleton e := by
  rw [h.cluster]
  simp only [candidatePairs_cover]

theorem Records.partitions (h : G.Records source scorer g context (candidatePairs entities)) :
    G.Partitions fun e => e ∈ entities := by
  constructor
  · intro v c hv
    obtain ⟨e, -, -, rfl⟩ := (h.cluster_iff v c).mp hv
    exact ⟨e, Cluster.mem_singleton.mpr rfl⟩
  · intro u v c c' huv hu hv x hx hx'
    obtain ⟨e, -, rfl, rfl⟩ := (h.cluster_iff u c).mp hu
    obtain ⟨e', -, rfl, rfl⟩ := (h.cluster_iff v c').mp hv
    rw [Cluster.mem_singleton] at hx hx'
    exact huv (by rw [← hx, ← hx'])
  · intro e
    constructor
    · intro he
      obtain ⟨v, c, hv, hm⟩ := he
      obtain ⟨e', he', -, rfl⟩ := (h.cluster_iff v c).mp hv
      exact Cluster.mem_singleton.mp hm ▸ he'
    · intro he
      exact ⟨_, _, (h.cluster_iff _ _).mpr ⟨e, he, rfl, rfl⟩, Cluster.mem_singleton.mpr rfl⟩

theorem Records.weights (h : G.Records source scorer g context (candidatePairs entities))
    (hweighs : ∀ p ∈ candidatePairs entities, p.1 ≠ p.2 →
      ∃ w, context.weigh source scorer p.1 p.2 = .ok w) {a b : EntityKey} (ha : a ∈ entities)
    (hb : b ∈ entities) (hab : a ≠ b) : ∃ w, context.distance? source scorer a b = some w ∧
      G.distance? (a.singletonId g) (b.singletonId g) = some w := by
  rcases candidatePairs_total ha hb hab with hp | hp
  · obtain ⟨w, hw⟩ := hweighs _ hp hab
    have hlt := (mem_candidatePairs.mp hp).2.2.resolve_left hab
    exact ⟨w, BlockContext.distance?_of_lt hlt hw,
      (h.distance _ _ w).mpr ⟨_, hp, hab, hw, .inl ⟨rfl, rfl⟩⟩⟩
  · obtain ⟨w, hw⟩ := hweighs _ hp hab.symm
    have hlt := (mem_candidatePairs.mp hp).2.2.resolve_left hab.symm
    exact ⟨w, (BlockContext.distance?_comm ..).trans (BlockContext.distance?_of_lt hlt hw),
      (h.distance _ _ w).mpr ⟨_, hp, hab.symm, hw, .inr ⟨rfl, rfl⟩⟩⟩

/-- The graph of a block that was recorded in full is complete, and its weights are distances. -/
theorem Records.linked [LawfulWeight ω]
    (h : G.Records source scorer g context (candidatePairs entities))
    (hapart : PairsApart g (candidatePairs entities))
    (hweighs : ∀ p ∈ candidatePairs entities, p.1 ≠ p.2 →
      ∃ w, context.weigh source scorer p.1 p.2 = .ok w) (t : ω) :
    G.Linked (context.distance? source scorer) t := by
  -- Vertices stand for single entities, so that a link between two of them is a distance.
  have hname {e e' : EntityKey} (he : e ∈ entities) (he' : e' ∈ entities)
      (hid : e.singletonId g = e'.singletonId g) : e = e' := by
    obtain ⟨p, hp, hpe⟩ := candidatePairs_cover.mpr he
    obtain ⟨q, hq, hqe⟩ := candidatePairs_cover.mpr he'
    exact hapart p hp q hq e e' hpe hqe hid
  have hlive {e : EntityKey} (he : e ∈ entities) : G.live (e.singletonId g) = true :=
    live_iff.mpr ⟨_, (h.cluster_iff _ _).mpr ⟨e, he, rfl, rfl⟩⟩
  have hends {u v : VertexId} {w : ω} (hw : G.distance? u v = some w) :
      ∃ a ∈ entities, ∃ b ∈ entities, u = a.singletonId g ∧ v = b.singletonId g ∧
        context.distance? source scorer a b = some w := by
    obtain ⟨⟨a, b⟩, hp, hne, hweigh, hends⟩ := (h.distance u v w).mp hw
    obtain ⟨ha, hb, hab⟩ := mem_candidatePairs.mp hp
    have hd := BlockContext.distance?_of_lt (hab.resolve_left hne) hweigh
    rcases hends with ⟨hu, hv⟩ | ⟨hu, hv⟩
    · exact ⟨a, ha, b, hb, hu, hv, hd⟩
    · exact ⟨b, hb, a, ha, hu, hv, (BlockContext.distance?_comm ..).trans hd⟩
  refine ⟨⟨h.toCanonical, ?_, ?_, ?_⟩, ?_, ?_⟩
  · intro u v w hw
    obtain ⟨a, ha, b, hb, rfl, -, -⟩ := hends hw
    exact hlive ha
  · intro u v huv hu hv
    obtain ⟨c, hc⟩ := live_iff.mp hu
    obtain ⟨c', hc'⟩ := live_iff.mp hv
    obtain ⟨a, ha, rfl, -⟩ := (h.cluster_iff _ _).mp hc
    obtain ⟨b, hb, rfl, -⟩ := (h.cluster_iff _ _).mp hc'
    have hab : a ≠ b := fun hab => huv (by rw [hab])
    obtain ⟨w, -, hw⟩ := h.weights hweighs ha hb hab
    exact ⟨w, hw⟩
  · intro u v w hw
    obtain ⟨p, -, -, hweigh, -⟩ := (h.distance u v w).mp hw
    exact BlockContext.weigh_storable hweigh
  · intro u v c c' w hu hv hw
    obtain ⟨a, ha, b, hb, hua, hvb, hd⟩ := hends hw
    obtain ⟨e, he, hue, rfl⟩ := (h.cluster_iff u c).mp hu
    obtain ⟨e', he', hve', rfl⟩ := (h.cluster_iff v c').mp hv
    have hae := hname ha he (hua.symm.trans hue)
    have hbe' := hname hb he' (hvb.symm.trans hve')
    subst hae hbe'
    have ha := Cluster.mem_singleton (ω := ω) (e := a).mpr rfl
    have hb := Cluster.mem_singleton (ω := ω) (e := b).mpr rfl
    exact ⟨⟨a, b, w, ha, hb, hd, Weight.le_refl w⟩, a, b, w, ha, hb, hd, Weight.le_refl w⟩
  · intro v c hv
    obtain ⟨e, -, -, rfl⟩ := (h.cluster_iff v c).mp hv
    exact Cluster.chained_singleton e

end Graph

end

/-- Where every pair of a block was recorded in an empty graph, the graph is complete and every
weight is the distance of two entities. -/
theorem run_recordBlock_ok {tally : Tally ω} {entries : List BlockEntry} {m m' : Memory ω}
    {plan : BlockPlan} {state : BlockState ω} [LawfulWeight ω]
    (h : (recordBlock source scorer tally g entries context).run m = (.ok (plan, state), m'))
    (hfailed : state.countdown.failed = 0) (halive : state.crashed = false)
    (hempty : m.store.graph g = ∅) (t : ω) :
    (m'.store.graph g).Linked (context.distance? source scorer) t ∧
      ((m'.store.graph g).Partitions fun e => ∃ b ∈ entries, b.entity = e) ∧
      ∀ a ∈ entries, ∀ b ∈ entries, a.entity ≠ b.entity →
        ∃ w, context.distance? source scorer a.entity b.entity = some w ∧
          (m'.store.graph g).distance? (a.entity.singletonId g) (b.entity.singletonId g) = some w := by
  unfold recordBlock BlockPlan.ofEntries at h
  split at h
  · cases h
  · rename_i plan' hplan
    split at hplan
    · cases hplan
    · cases hplan
      obtain ⟨state', m₁, hrecord, hdone⟩ := run_bind_eq_ok.mp h
      cases hdone
      -- Nothing failed, so that every pair was scored into the graph that was empty.
      have hscored := run_recordAll_ok (g := g) hrecord (by rw [hfailed]; exact Nat.zero_le _) halive
        fun t ht => by
          obtain ⟨p, -, rfl⟩ := List.mem_map.mp ht
          rfl
      rw [hempty] at hscored
      obtain ⟨hapart, hweighs⟩ := hscored.apart
      have hstart : (∅ : Graph ω).Records source scorer g context [] := .empty
      have hrecords := hscored.records hstart hapart fun p hp => (mem_candidatePairs.mp hp).2.2
      have hentities (e : EntityKey) : (∃ b ∈ entries, b.entity = e) ↔
          e ∈ (.ofList (entries.map BlockEntry.entity) : SortedSet EntityKey) := by
        rw [SortedSet.mem_ofList, List.mem_map]
      refine ⟨hrecords.linked hapart hweighs t, ?_, ?_⟩
      · simp only [hentities]
        exact hrecords.partitions
      · intro a ha b hb hab
        exact hrecords.weights hweighs ((hentities _).mp ⟨a, ha, rfl⟩)
          ((hentities _).mp ⟨b, hb, rfl⟩) hab

end RecordLinkage
