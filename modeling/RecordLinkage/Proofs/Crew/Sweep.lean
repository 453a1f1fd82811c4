import RecordLinkage.Proofs.Crew.Basic
import RecordLinkage.Proofs.Store.Vertices
import Mathlib.Tactic.ByContra

namespace RecordLinkage

/-- What a sweep was told: the vertices, once they were listed, and the edges. -/
structure Sighting where
  vertices : Option (List VertexKey)
  edges : List Edge

/-- A sweep reads one graph, and it removes an edge only if it was told of the edge and not of both
of its ends. -/
def sightings (ω : Type) (g : GraphId) : Rules ω Sighting where
  allows seen c := match c with
    | .clusters g' => g' = g
    | .edges g' => g' = g
    | .removeEdge e =>
      e ∈ seen.edges ∧ ∃ listed, seen.vertices = some listed ∧ (e.src ∉ listed ∨ e.dst ∉ listed)
    | _ => False
  next seen c r := match c, r with
    | .clusters _, .ok l => { seen with vertices := some (List.map Prod.fst l) }
    | .edges _, .ok l => { seen with edges := List.map Prod.fst l }
    | _, _ => seen

open Program

variable {ω : Type} {α : Type} {g : GraphId}

def Program.Sweeps (p : Program ω α) (g : GraphId) (seen : Sighting) : Prop :=
  p.Obeys (sightings ω g) (fun _ _ => True) seen

namespace Sweep

theorem overEdges_sweeps {live : SortedSet VertexId} {listed : List VertexKey}
    (hlive : ∀ k ∈ listed, k.vertex ∈ live) {told : List Edge} {l : List (Edge × ω)}
    (hl : ∀ p ∈ l, p.1 ∈ told) (removed : Nat) (connected : SortedSet VertexId) :
    (overEdges live l removed connected).Sweeps g ⟨some listed, told⟩ := by
  induction l generalizing removed connected with
  | nil => trivial
  | cons p rest ih =>
    obtain ⟨e, w⟩ := p
    rw [List.forall_mem_cons] at hl
    unfold overEdges
    split
    · exact ih hl.2 _ _
    · rename_i hends
      rw [Bool.not_eq_true, Bool.and_eq_false_iff] at hends
      have hunlisted (k : VertexKey) (hk : live.contains k.vertex = false) : k ∉ listed := by
        intro hmem
        rw [SortedSet.contains_iff.mpr (hlive k hmem)] at hk
        cases hk
      refine ⟨⟨hl.1, listed, rfl, hends.imp (hunlisted e.src) (hunlisted e.dst)⟩, fun r => ?_⟩
      cases r with
      | ok b => exact ih hl.2 _ _
      | error cause => trivial
      | crash => trivial

theorem sweep_sweeps (g : GraphId) : (sweep g : Program ω SweepReport).Sweeps g ⟨none, []⟩ := by
  refine ⟨rfl, fun r => ?_⟩
  cases r with
  | ok l =>
    refine ⟨rfl, fun r => ?_⟩
    cases r with
    | ok told =>
      have hlisted : ∀ k ∈ List.map Prod.fst l,
          k.vertex ∈ (.ofList (l.map fun p => p.1.vertex) : SortedSet VertexId) := by
        intro k hk
        obtain ⟨p, hp, rfl⟩ := List.mem_map.mp hk
        exact SortedSet.mem_ofList.mpr (List.mem_map.mpr ⟨p, hp, rfl⟩)
      apply (overEdges_sweeps hlisted (fun p hp => List.mem_map.mpr ⟨p, hp, rfl⟩) 0 ∅).bind
      · exact fun _ _ _ => trivial
      · exact fun _ _ _ => trivial
      · exact fun _ _ => trivial
    | error cause => trivial
    | crash => trivial
  | error cause => trivial
  | crash => trivial

end Sweep

variable [Weight ω]

theorem Store.live_of_not_mem_clusters {s : Store ω} {k : VertexKey} (hg : k.graph = g)
    (hk : k ∉ (s.clusters g).map Prod.fst) : s.live k = false := by
  by_contra hlive
  rw [Bool.not_eq_false] at hlive
  obtain ⟨c, hc⟩ := Graph.live_iff.mp hlive
  apply hk
  exact List.mem_map.mpr ⟨(k, c), mem_clusters.mpr ⟨hg, hg ▸ hc⟩, rfl⟩

namespace Crew

/-- The `n`-th call was `c`. Worker `i` made it, and it met the memory `m`. -/
def Made (history : List (Nat × Event ω)) (n i : Nat) (m : Memory ω) (c : Call ω) : Prop :=
  history[n]? = some (i, ⟨m, c⟩)

variable {history : List (Nat × Event ω)} {x : Nat × Event ω} {n i : Nat} {m : Memory ω}
  {c : Call ω} {seen : Sighting}

theorem Made.lt (h : Made history n i m c) : n < history.length :=
  (List.getElem?_eq_some_iff.mp h).1

theorem made_snoc : Made (history ++ [x]) n i m c ↔
    Made history n i m c ∨ n = history.length ∧ x = (i, ⟨m, c⟩) := by
  unfold Made
  rcases Nat.lt_trichotomy n history.length with hn | hn | hn
  · rw [List.getElem?_append_left hn]
    simp [Nat.ne_of_lt hn]
  · subst hn
    simp
  · have hlong : (history ++ [x]).length ≤ n := by
      rw [List.length_append]
      exact hn
    rw [List.getElem?_eq_none hlong, List.getElem?_eq_none (Nat.le_of_lt hn)]
    simp [Nat.ne_of_gt hn]

structure Told (history : List (Nat × Event ω)) (i : Nat) (g : GraphId) (seen : Sighting) :
    Prop where
  vertices : ∀ listed, seen.vertices = some listed →
    ∃ n m, Made history n i m (.clusters g) ∧ listed = (m.store.clusters g).map Prod.fst
  edges : ∀ e ∈ seen.edges, e.graph = g

/-- An edge that a sweep may remove had an end that was not live when the vertices were listed. -/
theorem Told.dead (h : Told history i g seen) {e : Edge}
    (hallowed : (sightings ω g).allows seen (.removeEdge e)) :
    ∃ n m, Made history n i m (.clusters g) ∧
      (m.store.live e.src = false ∨ m.store.live e.dst = false) := by
  obtain ⟨htold, listed, hlisted, hends⟩ := hallowed
  obtain ⟨n, m, hmade, rfl⟩ := h.vertices listed hlisted
  have hg : e.graph = g := h.edges e htold
  refine ⟨n, m, hmade, ?_⟩
  rcases hends with hsrc | hdst
  · exact .inl (Store.live_of_not_mem_clusters hg hsrc)
  · exact .inr (Store.live_of_not_mem_clusters hg hdst)

theorem Told.snoc (h : Told history i g seen) : Told (history ++ [x]) i g seen := by
  refine ⟨fun listed hlisted => ?_, h.edges⟩
  obtain ⟨n, m, hmade, hl⟩ := h.vertices listed hlisted
  exact ⟨n, m, made_snoc.mpr (.inl hmade), hl⟩

theorem Told.next (h : Told history i g seen) (hallowed : (sightings ω g).allows seen c)
    {reply : c.Reply} (answered : ∀ a, reply = .ok a → (c.perform m).1 = .ok a) :
    Told (history ++ [(i, ⟨m, c⟩)]) i g ((sightings ω g).next seen c reply) := by
  cases reply with
  | error cause => cases c <;> exact h.snoc
  | crash => cases c <;> exact h.snoc
  | ok a =>
    have ha := answered a rfl
    cases c with
    | clusters g' =>
      obtain rfl : g' = g := hallowed
      cases ha
      refine ⟨fun listed hlisted => ?_, h.edges⟩
      cases hlisted
      exact ⟨_, m, made_snoc.mpr (.inr ⟨rfl, rfl⟩), rfl⟩
    | edges g' =>
      obtain rfl : g' = g := hallowed
      cases ha
      refine ⟨h.snoc.vertices, fun e he => ?_⟩
      obtain ⟨p, hp, rfl⟩ := List.mem_map.mp he
      obtain ⟨q, -, rfl⟩ := List.mem_map.mp hp
      rfl
    | _ => exact h.snoc

/-- Whenever worker `i` removed an edge, one of its ends had not been live when the worker had last
listed the vertices. -/
def Justified (history : List (Nat × Event ω)) (i : Nat) (g : GraphId) : Prop :=
  ∀ n m e, Made history n i m (.removeEdge e) → ∃ n' m', n' < n ∧
    Made history n' i m' (.clusters g) ∧ (m'.store.live e.src = false ∨ m'.store.live e.dst = false)

theorem Justified.snoc (h : Justified history i g)
    (hx : ∀ m e, x = (i, ⟨m, .removeEdge e⟩) → ∃ n m', Made history n i m' (.clusters g) ∧
      (m'.store.live e.src = false ∨ m'.store.live e.dst = false)) :
    Justified (history ++ [x]) i g := by
  intro n m e hmade
  rcases made_snoc.mp hmade with hmade | ⟨rfl, hlast⟩
  · obtain ⟨n', m', hlt, hlisting, hdead⟩ := h n m e hmade
    exact ⟨n', m', hlt, made_snoc.mpr (.inl hlisting), hdead⟩
  · obtain ⟨n', m', hlisting, hdead⟩ := hx m e hlast
    exact ⟨n', m', hlisting.lt, made_snoc.mpr (.inl hlisting), hdead⟩

structure Sweeps (crew : Crew ω) (i : Nat) (g : GraphId) (seen : Sighting) : Prop where
  worker : ∃ p, crew.workers[i]? = some p ∧ p.Sweeps g seen
  told : Told crew.history i g seen
  justified : Justified crew.history i g

variable {crew crew' : Crew ω}

theorem Sweeps.acts (h : crew.Sweeps i g seen) (hacts : crew.Acts crew') :
    ∃ seen', crew'.Sweeps i g seen' := by
  obtain ⟨p, hp, hsweeps⟩ := h.worker
  cases hacts with
  | idle => exact ⟨seen, h⟩
  | @missed j c next reply asks unanswered =>
    by_cases hij : j = i
    · subst hij
      rw [asks] at hp
      cases hp
      -- A reply that is no answer tells the sweep nothing.
      have hnext : (sightings ω g).next seen c reply = seen := by
        cases reply with
        | ok a => exact absurd rfl (unanswered a)
        | error cause => cases c <;> rfl
        | crash => cases c <;> rfl
      have hset : (crew.workers.set j (next reply))[j]? = some (next reply) :=
        List.getElem?_set_self (List.getElem?_eq_some_iff.mp asks).1
      exact ⟨seen, ⟨_, hset, hnext ▸ hsweeps.2 reply⟩, h.told, h.justified⟩
    · exact ⟨seen, ⟨p, (List.getElem?_set_ne hij).trans hp, hsweeps⟩, h.told, h.justified⟩
  | @carried j c next reply asks answered =>
    by_cases hij : j = i
    · subst hij
      rw [asks] at hp
      cases hp
      have hset : (crew.workers.set j (next reply))[j]? = some (next reply) :=
        List.getElem?_set_self (List.getElem?_eq_some_iff.mp asks).1
      refine ⟨_, ⟨_, hset, hsweeps.2 reply⟩, h.told.next hsweeps.1 answered, ?_⟩
      apply h.justified.snoc
      intro m e hx
      cases hx
      exact h.told.dead hsweeps.1
    · refine ⟨seen, ⟨p, (List.getElem?_set_ne hij).trans hp, hsweeps⟩, h.told.snoc, ?_⟩
      apply h.justified.snoc
      intro m e hx
      cases hx
      exact absurd rfl hij

theorem sweeps_start (m : Memory ω) {ops : List (Operation ω)} (hi : ops[i]? = some (.sweep g)) :
    (start m ops).Sweeps i g ⟨none, []⟩ := by
  have hworker : (start m ops).workers[i]? = some (Operation.sweep g : Operation ω).program := by
    show (ops.map Operation.program)[i]? = _
    rw [List.getElem?_map, hi]
    rfl
  have hsweeps : (Operation.sweep g : Operation ω).program.Sweeps g ⟨none, []⟩ := by
    apply (Sweep.sweep_sweeps g).bind
    · exact fun _ _ _ => trivial
    · exact fun _ _ _ => trivial
    · exact fun _ _ => trivial
  refine ⟨⟨_, hworker, hsweeps⟩, ⟨nofun, nofun⟩, ?_⟩
  intro n m e hmade
  cases hmade

def met (crew : Crew ω) (n : Nat) : Memory ω :=
  ((crew.history[n]?).map fun x => x.2.before).getD crew.memory

theorem met_of_getElem? {x : Nat × Event ω} (h : crew.history[n]? = some x) :
    crew.met n = x.2.before := by
  rw [met, h]
  rfl

/-- Nobody changes the memory between two calls. -/
def Gapless (crew : Crew ω) : Prop :=
  ∀ n x, crew.history[n]? = some x → crew.met (n + 1) = x.2.after

theorem gapless_start (m : Memory ω) (ops : List (Operation ω)) : (start m ops).Gapless := by
  intro n x h
  simp [start] at h

theorem Gapless.acts (h : crew.Gapless) (hacts : crew.Acts crew') : crew'.Gapless := by
  cases hacts with
  | idle => exact h
  | missed reply asks unanswered => exact h
  | @carried i c next reply asks answered =>
    intro n x hx
    rcases Nat.lt_trichotomy (n + 1) crew.history.length with hn | hn | hn
    · have hlt : n < crew.history.length := by omega
      rw [List.getElem?_append_left hlt] at hx
      have hmet := h n x hx
      rw [met, List.getElem?_eq_getElem hn] at hmet
      rw [met, List.getElem?_append_left hn, List.getElem?_eq_getElem hn]
      exact hmet
    · have hlt : n < crew.history.length := by omega
      rw [List.getElem?_append_left hlt] at hx
      have hmet := h n x hx
      rw [met, hn, List.getElem?_eq_none (Nat.le_refl _)] at hmet
      rw [met, hn, List.getElem?_concat_length]
      exact hmet
    · have hlast := (List.getElem?_eq_some_iff.mp hx).1
      rw [List.length_append, List.length_singleton] at hlast
      obtain rfl : n = crew.history.length := by omega
      rw [List.getElem?_concat_length] at hx
      cases hx
      rw [met, List.getElem?_eq_none (by simp)]
      rfl

/-- A vertex that was dead and is live has come to life by a call in between. -/
theorem Gapless.birth (h : crew.Gapless) {k : VertexKey} {n' n : Nat} (hle : n' ≤ n)
    (hn : n ≤ crew.history.length) (hdead : (crew.met n').store.live k = false)
    (hlive : (crew.met n).store.live k = true) :
    ∃ p x, n' ≤ p ∧ p < n ∧ crew.history[p]? = some x ∧ x.2.before.store.live k = false ∧
      x.2.after.store.live k = true := by
  induction hle with
  | refl =>
    rw [hdead] at hlive
    cases hlive
  | @step n hle ih =>
    have hx := List.getElem?_eq_getElem (Nat.lt_of_succ_le hn)
    cases hbefore : (crew.met n).store.live k with
    | true =>
      obtain ⟨p, x, hfrom, hto, hbirth⟩ := ih (Nat.le_of_succ_le hn) hbefore
      exact ⟨p, x, hfrom, Nat.lt_succ_of_lt hto, hbirth⟩
    | false =>
      rw [met_of_getElem? hx] at hbefore
      rw [h n _ hx] at hlive
      exact ⟨n, _, hle, Nat.lt_succ_self n, hx, hbefore, hlive⟩

end Crew

def Event.Bears (x : Event ω) (k : VertexKey) : Prop :=
  x.before.store.live k = false ∧ x.after.store.live k = true

/-- A sweep removes an edge between live vertices only if one of them came to life after the sweep
had listed the vertices. -/
theorem sweep_cuts_only_newborn (m₀ : Memory ω) (ops : List (Operation ω))
    (schedule : List (Nat × Fate ω)) {i : Nat} (hi : ops[i]? = some (.sweep g)) {n : Nat}
    {m : Memory ω} {e : Edge} (hsrc : m.store.live e.src = true)
    (hdst : m.store.live e.dst = true) :
    let history := ((Crew.start m₀ ops).run schedule).history
    Crew.Made history n i m (.removeEdge e) →
      ∃ n' m' p x, Crew.Made history n' i m' (.clusters g) ∧ n' < p ∧ p < n ∧
        history[p]? = some x ∧ (x.2.Bears e.src ∨ x.2.Bears e.dst) := by
  intro history hmade
  have hgapless : ((Crew.start m₀ ops).run schedule).Gapless :=
    Crew.run_induct (fun _ _ hacts h => h.acts hacts) (Crew.gapless_start m₀ ops) schedule
  obtain ⟨seen, hsweeps⟩ : ∃ seen, ((Crew.start m₀ ops).run schedule).Sweeps i g seen := by
    apply Crew.run_induct (I := fun crew => ∃ seen, crew.Sweeps i g seen)
    · intro crew crew' hacts h
      obtain ⟨seen, h⟩ := h
      exact h.acts hacts
    · exact ⟨_, Crew.sweeps_start m₀ hi⟩
  obtain ⟨n', m', hlt, hlisting, hdead⟩ := hsweeps.justified n m e hmade
  have hmet : ((Crew.start m₀ ops).run schedule).met n = m := Crew.met_of_getElem? hmade
  have hmet' : ((Crew.start m₀ ops).run schedule).met n' = m' := Crew.met_of_getElem? hlisting
  have hbirth (k : VertexKey) (hk : m'.store.live k = false) (hk' : m.store.live k = true) :
      ∃ p x, n' < p ∧ p < n ∧ history[p]? = some x ∧ x.2.Bears k := by
    rw [← hmet'] at hk
    rw [← hmet] at hk'
    obtain ⟨p, x, hfrom, hto, hx, hbears⟩ :=
      hgapless.birth (Nat.le_of_lt hlt) (Nat.le_of_lt hmade.lt) hk hk'
    refine ⟨p, x, Nat.lt_of_le_of_ne hfrom ?_, hto, hx, hbears⟩
    -- Listing the vertices changes nothing.
    rintro rfl
    rw [hlisting] at hx
    cases hx
    have hsame := hbears.1.symm.trans hbears.2
    cases hsame
  rcases hdead with hdead | hdead
  · obtain ⟨p, x, hfrom, hto, hx, hbears⟩ := hbirth e.src hdead hsrc
    exact ⟨n', m', p, x, hlisting, hfrom, hto, hx, .inl hbears⟩
  · obtain ⟨p, x, hfrom, hto, hx, hbears⟩ := hbirth e.dst hdead hdst
    exact ⟨n', m', p, x, hlisting, hfrom, hto, hx, .inr hbears⟩

/-- A pair is recorded between the two readings of a sweep. -/
def overtakenSweep : Crew Binary64 :=
  let g : GraphId := ⟨⟨1⟩⟩
  let e (n : BitVec 128) : EntityKey := ⟨⟨⟨7⟩⟩, ⟨⟨n⟩⟩⟩
  let scorer : Scorer Binary64 := ⟨overlapFeatures, .constant .zero, .zero⟩
  (Crew.start ⟨∅, ⟨[], 0⟩⟩ [.sweep g, .record scorer g (e 1) ∅ (e 2) ∅ ⟨[]⟩]).run
    ([0, 1, 1, 1, 1, 1, 0, 0].map fun i => (i, .served))

/-- Whether an edge is removed that is there and whose ends are both live. -/
def Event.cutsLive (x : Event ω) : Bool :=
  match x.call with
  | .removeEdge e =>
    (x.before.store.weight? e).isSome && x.before.store.live e.src && x.before.store.live e.dst
  | _ => false

theorem Event.cutsLive_iff {x : Event ω} : x.cutsLive = true ↔ ∃ e, x.call = .removeEdge e ∧
    (x.before.store.weight? e).isSome = true ∧ x.before.store.live e.src = true ∧
      x.before.store.live e.dst = true := by
  obtain ⟨m, c⟩ := x
  cases c <;> simp [cutsLive, and_assoc]

/-- The ends of the edge that is removed came to life after the vertices were listed. -/
theorem overtakenSweep_newborn : ∃ e m, Crew.Made overtakenSweep.history 7 0 m (.removeEdge e) ∧
    m.store.live e.src = true ∧ m.store.live e.dst = true ∧
    ∃ n' m' p x, Crew.Made overtakenSweep.history n' 0 m' (.clusters ⟨⟨1⟩⟩) ∧ n' < p ∧ p < 7 ∧
      overtakenSweep.history[p]? = some x ∧ (x.2.Bears e.src ∨ x.2.Bears e.dst) := by
  have hlast : (overtakenSweep.history[7]?.any fun x => decide (x.1 = 0) && x.2.cutsLive) = true := by
    decide +kernel
  obtain ⟨⟨i, ⟨m, c⟩⟩, hx, hcuts⟩ := (Option.any_eq_true _ _).mp hlast
  rw [Bool.and_eq_true, decide_eq_true_eq] at hcuts
  obtain ⟨rfl, hcuts⟩ := hcuts
  obtain ⟨e, rfl, -, hsrc, hdst⟩ := Event.cutsLive_iff.mp hcuts
  exact ⟨e, m, hx, hsrc, hdst, sweep_cuts_only_newborn _ _ _ rfl hsrc hdst hx⟩

/-- The sweep takes the edge of the pair for a stale one. -/
theorem overtakenSweep_cutsLive :
    ∃ x ∈ overtakenSweep.history, x.1 = 0 ∧ x.2.cutsLive = true := by decide +kernel

end RecordLinkage
