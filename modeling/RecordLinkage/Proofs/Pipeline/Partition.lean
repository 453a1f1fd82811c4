import RecordLinkage.Proofs.Graph.Partition
import RecordLinkage.Proofs.Pipeline.Operation

namespace RecordLinkage

variable {ω : Type} [Weight ω]

def Requested (h : List (Event ω)) (g : GraphId) (e : EntityKey) : Prop :=
  ∃ x ∈ h, x.call = .singleton g e

def Created (h : List (Event ω)) (g : GraphId) (e : EntityKey) : Prop :=
  ∃ x ∈ h, x.call = .singleton g e ∧
    x.before.store.live ⟨g, e.singletonId g⟩ = false ∧
    x.after.store.live ⟨g, e.singletonId g⟩ = true

/-- Different entities of a graph that were asked for are named differently. -/
def NamedApart (h : List (Event ω)) : Prop :=
  ∀ g e e', Requested h g e → Requested h g e' → e.singletonId g = e'.singletonId g → e = e'

def requests (h : List (Event ω)) : List (GraphId × EntityKey) :=
  h.filterMap fun x => match x.call with
    | .singleton g e => some (g, e)
    | _ => none

theorem requested_iff {h : List (Event ω)} {g : GraphId} {e : EntityKey} :
    Requested h g e ↔ (g, e) ∈ requests h := by
  rw [requests, List.mem_filterMap]
  constructor
  · intro he
    obtain ⟨x, hx, hc⟩ := he
    exact ⟨x, hx, by rw [hc]⟩
  · intro he
    obtain ⟨x, hx, hc⟩ := he
    refine ⟨x, hx, ?_⟩
    split at hc
    · rename_i hcall
      cases hc
      exact hcall
    · cases hc

instance (h : List (Event ω)) : Decidable (NamedApart h) :=
  decidable_of_iff
    (∀ p ∈ requests h, ∀ q ∈ requests h, p.1 = q.1 → p.2.singletonId p.1 = q.2.singletonId q.1 →
      p.2 = q.2) <| by
    constructor
    · intro hall g e e' he he' hname
      exact hall _ (requested_iff.mp he) _ (requested_iff.mp he') rfl hname
    · intro hn p hp q hq hg hname
      obtain ⟨g, e⟩ := p
      obtain ⟨g', e'⟩ := q
      dsimp only at hg hname
      subst hg
      exact hn g e e' (requested_iff.mpr hp) (requested_iff.mpr hq) hname

theorem NamedApart.earlier {h h' : List (Event ω)} (hn : NamedApart h') (hp : h <+: h') :
    NamedApart h := by
  intro g e e' he he'
  obtain ⟨x, hx, hc⟩ := he
  obtain ⟨x', hx', hc'⟩ := he'
  exact hn g e e' ⟨x, hp.subset hx, hc⟩ ⟨x', hp.subset hx', hc'⟩

theorem requested_snoc {h : List (Event ω)} {x : Event ω} {g : GraphId} {e : EntityKey} :
    Requested (h ++ [x]) g e ↔ Requested h g e ∨ x.call = .singleton g e := by
  simp only [Requested, List.mem_append, List.mem_singleton]
  constructor
  · intro he
    obtain ⟨y, hy | rfl, hc⟩ := he
    · exact .inl ⟨y, hy, hc⟩
    · exact .inr hc
  · intro he
    rcases he with ⟨y, hy, hc⟩ | hc
    · exact ⟨y, .inl hy, hc⟩
    · exact ⟨x, .inr rfl, hc⟩

theorem requested_append {h h' : List (Event ω)} (hh : ∀ x ∈ h', x.call.kind ≠ .singleton)
    (g : GraphId) (e : EntityKey) : Requested (h ++ h') g e ↔ Requested h g e := by
  constructor
  · intro he
    obtain ⟨x, hx, hc⟩ := he
    rcases List.mem_append.mp hx with hx | hx
    · exact ⟨x, hx, hc⟩
    · exact absurd (by rw [hc]; rfl) (hh x hx)
  · intro he
    obtain ⟨x, hx, hc⟩ := he
    exact ⟨x, List.mem_append_left h' hx, hc⟩

theorem Created.append {h : List (Event ω)} {g : GraphId} {e : EntityKey} (hc : Created h g e)
    (h' : List (Event ω)) : Created (h ++ h') g e := by
  obtain ⟨x, hx, hcall⟩ := hc
  exact ⟨x, List.mem_append_left h' hx, hcall⟩

theorem Created.requested {h : List (Event ω)} {g : GraphId} {e : EntityKey}
    (hc : Created h g e) : Requested h g e := by
  obtain ⟨x, hx, hcall, -⟩ := hc
  exact ⟨x, hx, hcall⟩

/-- What the vertices of a graph have to do with the entities asked for. The last field keeps
identifiers of unions away from those of entities still to come. -/
structure Graph.Holds (G : Graph ω) (g : GraphId) (entities : EntityKey → Prop) : Prop
    extends G.Partitions entities where
  named : ∀ e, entities e → G.taken (e.singletonId g) = true
  origin : ∀ v, G.taken v = true → v.uuid.version = 4 ∨ ∃ e, entities e ∧ v = e.singletonId g

namespace Graph

variable {G : Graph ω} {g : GraphId} {entities : EntityKey → Prop}

theorem Holds.empty (g : GraphId) : (∅ : Graph ω).Holds g fun _ => False where
  nonempty := nofun
  disjoint := nofun
  covers _ := ⟨nofun, nofun⟩
  named := nofun
  origin := nofun

theorem Holds.congr {G' : Graph ω} (h : G.Holds g entities) (hc : G'.clusters = G.clusters)
    (hr : G'.retired = G.retired) : G'.Holds g entities := by
  have ht (v : VertexId) : G'.taken v = G.taken v := by
    rw [taken, live, hc, hr, taken, live]
  refine ⟨h.toPartitions.congr fun v => ?_, fun e he => ?_, fun v hv => ?_⟩
  · rw [cluster?, hc, cluster?]
  · exact (ht _).trans (h.named e he)
  · exact h.origin v ((ht v).symm.trans hv)

/-- A vertex that is asked for is there or is made. -/
theorem Holds.ensure (h : G.Holds g entities) {e : EntityKey}
    (hapart : ∀ e', entities e' → e'.singletonId g = e.singletonId g → e' = e) :
    (G.ensure (e.singletonId g) e).Holds g (fun e' => entities e' ∨ e' = e) ∧
      (entities e ∨ G.live (e.singletonId g) = false ∧
        (G.ensure (e.singletonId g) e).live (e.singletonId g) = true) := by
  cases ht : G.taken (e.singletonId g) with
  | true =>
    -- A name has version five, so what has taken it is not a union.
    have he : entities e := by
      rcases h.origin _ ht with hv | ⟨e', he', hv⟩
      · rw [EntityKey.version_singletonId] at hv
        cases hv
      · exact hapart e' he' hv.symm ▸ he'
    have hsame : (fun e' => entities e' ∨ e' = e) = entities := by
      funext e'
      apply propext
      constructor
      · intro h
        rcases h with h | rfl
        · exact h
        · exact he
      · exact .inl
    rw [hsame, Graph.ensure, if_pos ht]
    exact ⟨h, .inl he⟩
  | false =>
    have he : ¬ entities e := by
      intro he
      rw [h.named e he] at ht
      cases ht
    refine ⟨⟨h.toPartitions.ensure ht he, ?_, ?_⟩, .inr ⟨?_, ?_⟩⟩
    · intro e' he'
      rw [taken_ensure]
      rcases he' with he' | rfl
      · exact .inl (h.named e' he')
      · exact .inr rfl
    · intro v hv
      rw [taken_ensure] at hv
      rcases hv with hv | rfl
      · rcases h.origin v hv with hv | ⟨e', he', hv⟩
        · exact .inl hv
        · exact .inr ⟨e', .inl he', hv⟩
      · exact .inr ⟨e, .inr rfl, rfl⟩
    · rw [taken, Bool.or_eq_false_iff] at ht
      exact ht.1
    · rw [live_eq_isSome, cluster?_ensure, if_pos ⟨ht, rfl⟩]
      rfl

theorem Holds.contract (h : G.Holds g entities) {l : Link} {w : ω} {x y : Cluster ω} {k : VertexId}
    (hsrc : G.cluster? l.src = some x) (hdst : G.cluster? l.dst = some y)
    (hfree : G.taken k = false) (hk : k.uuid.version = 4) :
    (G.contract l w x y k).Holds g entities := by
  refine ⟨h.toPartitions.contract hsrc hdst hfree, ?_, ?_⟩
  · intro e he
    exact (taken_contract ..).mpr (.inl (h.named e he))
  · intro v hv
    rcases (taken_contract ..).mp hv with hv | rfl | rfl | rfl
    · exact h.origin v hv
    · exact .inl hk
    · exact h.origin _ (taken_iff.mpr (.inl (live_iff.mpr ⟨x, hsrc⟩)))
    · exact h.origin _ (taken_iff.mpr (.inl (live_iff.mpr ⟨y, hdst⟩)))

end Graph

/-- What a run keeps as long as names do not clash: in every graph the vertices hold the entities
that were asked for, each of which came to life. -/
def Kept (h : List (Event ω)) (m : Memory ω) : Prop :=
  NamedApart h → ∀ g, (m.store.graph g).Holds g (Requested h g) ∧
    ∀ e, Requested h g e → Created h g e

namespace Kept

theorem start (ids : IdSource) : Kept ([] : List (Event ω)) ⟨∅, ids⟩ := by
  intro _ g
  have hnone : Requested ([] : List (Event ω)) g = fun _ => False := by
    funext e
    simp [Requested]
  rw [hnone]
  exact ⟨Graph.Holds.empty g, nofun⟩

/-- A call that asks for no vertex of an entity and leaves the vertices of all graphs in order. -/
theorem append {h : List (Event ω)} {m m' : Memory ω} (hI : Kept h m) {h' : List (Event ω)}
    (hh : ∀ x ∈ h', x.call.kind ≠ .singleton)
    (hG : ∀ g entities, (m.store.graph g).Holds g entities → (m'.store.graph g).Holds g entities) :
    Kept (h ++ h') m' := by
  intro hn g
  obtain ⟨hholds, hcreated⟩ := hI (hn.earlier (List.prefix_append h h')) g
  have hsame : Requested (h ++ h') g = Requested h g := by
    funext e
    exact propext (requested_append hh g e)
  rw [hsame]
  exact ⟨hG g _ hholds, fun e he => (hcreated e he).append h'⟩

theorem singleton {h : List (Event ω)} {m : Memory ω} (hI : Kept h m) (g : GraphId)
    (e : EntityKey) :
    Kept (h ++ [⟨m, .singleton g e⟩]) ((Call.singleton g e).perform m).2 := by
  intro hn g'
  have hafter : ((Call.singleton g e).perform m).2.store.graph g' =
      if g = g' then (m.store.graph g).ensure (e.singletonId g) e else m.store.graph g' :=
    Store.graph_singleton m.store g e g'
  obtain ⟨hholds, hcreated⟩ := hI (hn.earlier (List.prefix_append h _)) g'
  by_cases hg : g = g'
  · subst hg
    have hsame : Requested (h ++ [⟨m, .singleton g e⟩]) g = fun e' => Requested h g e' ∨ e' = e := by
      funext e'
      rw [requested_snoc]
      simp [eq_comm]
    obtain ⟨hnew, hborn⟩ := hholds.ensure (e := e) (by
      intro e' he' hname
      refine hn g e' e ?_ ?_ hname
      · rw [hsame]
        exact .inl he'
      · rw [hsame]
        exact .inr rfl)
    rw [hafter, if_pos rfl, hsame]
    refine ⟨hnew, ?_⟩
    intro e' he'
    rcases he' with he' | rfl
    · exact (hcreated e' he').append _
    · rcases hborn with hold | ⟨hbefore, hlive⟩
      · exact (hcreated e' hold).append _
      · refine ⟨⟨m, .singleton g e'⟩, by simp, rfl, hbefore, ?_⟩
        rw [Store.live, Event.after, hafter, if_pos rfl]
        exact hlive
  · have hsame : Requested (h ++ [⟨m, .singleton g e⟩]) g' = Requested h g' := by
      funext e'
      rw [requested_snoc]
      simp [hg]
    rw [hafter, if_neg hg, hsame]
    exact ⟨hholds, fun e' he' => (hcreated e' he').append _⟩

theorem call {h : List (Event ω)} {m : Memory ω} (hI : Kept h m) {c : Call ω}
    (hmerge : c.kind ≠ .merge) (hremove : c.kind ≠ .removeVertex) :
    Kept (h ++ [⟨m, c⟩]) (c.perform m).2 := by
  by_cases hs : c.kind = .singleton
  · cases c with
    | singleton g e => exact hI.singleton g e
    | _ => cases hs
  -- All that is left are calls that do not touch vertices.
  · have hquiet : c.Quiet := by
      cases c with
      | singleton => exact hs rfl
      | merge => exact hmerge rfl
      | removeVertex => exact hremove rfl
      | _ => trivial
    refine hI.append (by simpa using hs) ?_
    intro g entities hholds
    obtain ⟨hc, hr⟩ := Call.perform_quiet hquiet m g
    exact hholds.congr hc hr

theorem makes {α : Type} {h : List (Event ω)} {m : Memory ω} (hI : Kept h m) {p : Program ω α}
    {kinds : List CallKind} (hp : p.Makes kinds) (hmerge : CallKind.merge ∉ kinds)
    (hremove : CallKind.removeVertex ∉ kinds) : Kept (h ++ p.trace m) (p.run m).2 := by
  refine Program.Only.run (I := Kept) ?_ hp hI
  intro h m c hc hI
  apply hI.call
  · intro hk
    exact hmerge (hk ▸ hc)
  · intro hk
    exact hremove (hk ▸ hc)

theorem steps {α : Type} {h : List (Event ω)} {m : Memory ω} (hI : Kept h m) {p : Program ω α}
    (hp : p.Makes CallKind.draining) {g : GraphId} {t : ω} {steps : List (Step ω)}
    (hsteps : Drain.Steps g t m steps (p.run m).2) : Kept (h ++ p.trace m) (p.run m).2 := by
  apply hI.append
  · intro x hx hk
    have hdraining := hp.of_mem_trace hx
    rw [hk] at hdraining
    exact absurd hdraining (by decide)
  · intro g' entities hholds
    apply hsteps.induct (P := fun m' => (m'.store.graph g').Holds g' entities)
    · intro m s m' hm hs
      apply hs.preserves (P := fun G => G.Holds g' entities)
      · exact fun G l hG => hG.congr rfl rfl
      · exact fun G l w x y k hsrc hdst hfree hk hG => hG.contract hsrc hdst hfree hk
      · exact hm
    · exact hholds

theorem operation {h : List (Event ω)} {m : Memory ω} (hI : Kept h m) {op : Operation ω}
    (hop : op.fails m = false) : Kept (h ++ op.program.trace m) (op.program.run m).2 := by
  cases op with
  | singleton g e =>
    have hcall : (Program.singleton g e : Program ω VertexKey).Makes CallKind.scoring :=
      Program.only_call (by simp [Call.kind, CallKind.scoring])
    exact hI.makes hcall.discard (by decide) (by decide)
  | record scorer g a entityA b entityB index =>
    exact hI.makes (Scorer.record_makes ..).discard (by decide) (by decide)
  | process source scorer task =>
    exact hI.makes (PairTask.process_makes ..).discard (by decide) (by decide)
  | block source scorer tally g entries context =>
    exact hI.makes (recordBlock_makes ..).discard (by decide) (by decide)
  | sweep g => exact hI.makes (Sweep.sweep_makes g).discard (by decide) (by decide)
  | step g t =>
    obtain ⟨steps, hsteps⟩ := Operation.run_step hop
    exact hI.steps (Drain.step_makes g t).discard hsteps
  | cluster allowance g t =>
    obtain ⟨steps, hsteps⟩ := Operation.run_cluster hop
    exact hI.steps (Drain.cluster_makes allowance g t).discard hsteps

end Kept

/-- After any operations of which no drain fails, in every graph the live clusters share out exactly
the entities whose vertex ever came to life, and these are all that were asked for. -/
theorem clusters_partition_created_entities (ids : IdSource) (ops : List (Operation ω))
    (healthy : Operation.unfailing ops ⟨∅, ids⟩ = true)
    (names : NamedApart (Operation.traceAll ops ⟨∅, ids⟩)) (n : Nat) (g : GraphId) :
    let past := Operation.traceAll (ops.take n) ⟨∅, ids⟩
    ((Operation.runAll (ops.take n) ⟨∅, ids⟩).store.graph g).Partitions (Created past g) ∧
      ∀ e, Created past g e ↔ Requested past g e := by
  intro past
  have hkept : Kept past (Operation.runAll (ops.take n) ⟨∅, ids⟩) := by
    have hstart := Kept.start (ω := ω) ids
    exact Operation.runAll_induct (I := Kept) (fun h m op hop hI => hI.operation hop)
      (Operation.unfailing_take healthy n) hstart
  obtain ⟨hholds, hcreated⟩ := hkept (names.earlier (Operation.traceAll_take ops _ n)) g
  have hsame : Created past g = Requested past g := by
    funext e
    exact propext ⟨Created.requested, hcreated e⟩
  rw [hsame]
  exact ⟨hholds.toPartitions, fun e => Iff.rfl⟩

/-- Two entities are joined; then one of them is compared in vain with a third. -/
def rescoredUnion : List (Operation Binary64) :=
  let g : GraphId := ⟨⟨1⟩⟩
  let e (n : BitVec 128) : EntityKey := ⟨⟨⟨7⟩⟩, ⟨⟨n⟩⟩⟩
  let scorer (w : Binary64) : Scorer Binary64 := ⟨overlapFeatures, .constant w, .zero⟩
  [.record (scorer .zero) g (e 1) ∅ (e 2) ∅ ⟨[]⟩, .singleton g (e 3), .step g defaultThreshold,
    .record (scorer .zero) g (e 1) ∅ (e 3) ∅ ⟨[]⟩, .sweep g]

theorem rescoredUnion_partition :
    Operation.unfailing rescoredUnion ⟨∅, ⟨[], 0⟩⟩ = true ∧
      NamedApart (Operation.traceAll rescoredUnion ⟨∅, ⟨[], 0⟩⟩) ∧
      ((Operation.runAll (rescoredUnion.take 5) ⟨∅, ⟨[], 0⟩⟩).store.graph ⟨⟨1⟩⟩).Partitions
        (Created (Operation.traceAll (rescoredUnion.take 5) ⟨∅, ⟨[], 0⟩⟩) ⟨⟨1⟩⟩) := by
  have healthy : Operation.unfailing rescoredUnion ⟨∅, ⟨[], 0⟩⟩ = true := by decide +kernel
  have names : NamedApart (Operation.traceAll rescoredUnion ⟨∅, ⟨[], 0⟩⟩) := by decide +kernel
  exact ⟨healthy, names, (clusters_partition_created_entities _ _ healthy names 5 ⟨⟨1⟩⟩).1⟩

end RecordLinkage
