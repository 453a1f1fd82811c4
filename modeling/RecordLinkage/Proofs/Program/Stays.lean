import RecordLinkage.Block.Run
import RecordLinkage.Drain
import RecordLinkage.Sweep
import RecordLinkage.Proofs.Program.Run
import RecordLinkage.Proofs.Store.Parts

namespace RecordLinkage

def Call.Names {ω : Type} (g : GraphId) : (c : Call ω) → c.Answer → Prop
  | .singleton _ _ | .merge _ _ _ => fun (k : VertexKey) => k.graph = g
  | .clusters _ => fun (l : List (VertexKey × Cluster ω)) => ∀ p ∈ l, p.1.graph = g
  | .lightest _ => fun (found : Option (Edge × ω)) => ∀ p, found = some p → p.1.graph = g
  | .edges _ => fun (l : List (Edge × ω)) => ∀ p ∈ l, p.1.graph = g
  | _ => fun _ => True

theorem Call.names_perform {ω : Type} [Weight ω] (c : Call ω) (m : Memory ω) {a : c.Answer}
    (h : (c.perform m).1 = .ok a) : c.Names c.home a := by
  cases c with
  | cluster | removeVertex | putEdge | weight | removeEdge | destinations | sources => trivial
  | singleton g e =>
    cases h
    rfl
  | clusters g =>
    cases h
    exact fun p hp => (Store.mem_clusters.mp hp).1
  | merge x y w =>
    simp only [perform] at h
    rcases hmerge : m.merge x y w with ⟨cause | k, m'⟩ <;> rw [hmerge] at h <;> cases h
    obtain ⟨_, _, hjoins, -⟩ := Memory.merge_ok hmerge
    exact hjoins.graph
  | lightest g =>
    cases h
    intro p hp
    obtain ⟨q, -, rfl⟩ := Option.map_eq_some_iff.mp hp
    rfl
  | edges g =>
    cases h
    intro p hp
    obtain ⟨q, -, rfl⟩ := List.mem_map.mp hp
    rfl

namespace Program

variable {ω α β : Type} {g : GraphId}

/-- A procedure that is told of one graph calls for nothing else, and its value is as it should. -/
def Stays (g : GraphId) (Q : α → Prop) : Program ω α → Prop
  | .done r => ∀ a, r = .ok a → Q a
  | .ask c next => c.home = g ∧
    ∀ r : c.Reply, (∀ a, r = .ok a → c.Names g a) → (next r).Stays g Q

variable {Q : α → Prop} {Q' : β → Prop} {p : Program ω α} {f : α → Program ω β}

theorem stays_pure {a : α} (h : Q a) : (pure a : Program ω α).Stays g Q := by
  intro b hb
  cases hb
  exact h

theorem stays_fail (cause : Error ω) : (fail cause : Program ω α).Stays g Q := nofun

theorem stays_call {c : Call ω} (h : c.home = g) : (call c).Stays g (c.Names g) := by
  refine ⟨h, fun r hr a ha => ?_⟩
  cases r with
  | ok b =>
    cases ha
    exact hr _ rfl
  | error cause => cases ha
  | crash => cases ha

theorem Stays.mono {R : α → Prop} (hp : p.Stays g Q) (h : ∀ a, Q a → R a) : p.Stays g R := by
  induction p with
  | done r => exact fun a ha => h a (hp a ha)
  | ask c next ih => exact ⟨hp.1, fun r hr => ih r (hp.2 r hr)⟩

theorem Stays.any (hp : p.Stays g Q) : p.Stays g fun _ => True := hp.mono fun _ _ => trivial

theorem Stays.bind (hp : p.Stays g Q) (hf : ∀ a, Q a → (f a).Stays g Q') :
    (p >>= f).Stays g Q' := by
  induction p with
  | done r =>
    cases r with
    | ok a => exact hf a (hp a rfl)
    | error e => exact nofun
    | crash => exact nofun
  | ask c next ih => exact ⟨hp.1, fun r hr => ih r (hp.2 r hr)⟩

theorem Stays.discard (hp : p.Stays g Q) : (discard p).Stays g fun _ => True :=
  hp.bind fun _ _ => stays_pure trivial

theorem Stays.attempt (hp : p.Stays g Q) : p.attempt.Stays g fun r => ∀ a, r = .ok a → Q a := by
  induction p with
  | done r => exact stays_pure hp
  | ask c next ih => exact ⟨hp.1, fun r hr => ih r (hp.2 r hr)⟩

theorem stays_forM {γ : Type} {f : γ → Program ω Unit} {l : List γ}
    (h : ∀ x ∈ l, (f x).Stays g fun _ => True) : (l.forM f).Stays g fun _ => True := by
  induction l with
  | nil => exact stays_pure trivial
  | cons x l ih =>
    rw [List.forall_mem_cons] at h
    exact h.1.bind fun _ _ => ih h.2

theorem live_stays {k : VertexKey} (h : k.graph = g) :
    (live k : Program ω Bool).Stays g fun _ => True :=
  (stays_call (c := .cluster k) h).bind fun _ _ => stays_pure trivial

section Run

variable [Weight ω] {m : Memory ω}

/-- Other graphs are left as they are. -/
theorem Stays.part_run (hp : p.Stays g Q) (m : Memory ω) {h : GraphId} (hg : g ≠ h) :
    (p.run m).2.store.part h = m.store.part h := by
  induction p generalizing m with
  | done r => rfl
  | ask c next ih =>
    obtain ⟨rfl, hnext⟩ := hp
    rw [run_ask]
    refine (ih _ (hnext _ fun a ha => c.names_perform m ?_) _).trans (c.part_perform_of_ne m hg)
    cases hanswer : (c.perform m).1 with
    | ok b =>
      rw [hanswer] at ha
      cases ha
      rfl
    | error cause =>
      rw [hanswer] at ha
      cases ha

end Run

end Program

open Program

variable {ω : Type} {g : GraphId}

namespace Drain

variable {e : Edge}

theorem edgeWithin_stays (g : GraphId) (a b : VertexId) :
    (edgeWithin g a b : Program ω Edge).Stays g fun e => e.graph = g := by
  rw [edgeWithin, Edge.between, if_neg (not_not_intro rfl)]
  cases Link.between? a b with
  | none => exact nofun
  | some l => exact stays_pure rfl

theorem removeEdge_stays (he : e.graph = g) :
    (discard (removeEdge e) : Program ω Unit).Stays g fun _ => True :=
  Stays.discard (stays_call (c := .removeEdge e) he)

theorem removeVertex_stays {k : VertexKey} (hk : k.graph = g) :
    (discard (removeVertex k) : Program ω Unit).Stays g fun _ => True :=
  Stays.discard (stays_call (c := .removeVertex k) hk)

theorem unlink_stays (v : VertexId) (l : List VertexId) :
    (unlink g v l : Program ω Unit).Stays g fun _ => True :=
  stays_forM fun u _ => (edgeWithin_stays g v u).bind fun _ he => removeEdge_stays he

theorem replaceParts_stays (he : e.graph = g) (k : VertexId)
    (links fromA fromB : SortedMap VertexId ω) :
    (replaceParts e k links fromA fromB).Stays g fun _ => True := by
  subst he
  unfold replaceParts
  refine Stays.bind (stays_forM fun p _ => ?_) fun _ _ => ?_
  · exact (edgeWithin_stays e.graph k p.1).bind fun e' he' =>
      (stays_call (c := .putEdge e' p.2) he').any
  refine (unlink_stays e.link.src _).bind fun _ _ => ?_
  refine (unlink_stays e.link.dst _).bind fun _ _ => ?_
  refine (removeEdge_stays rfl).bind fun _ _ => ?_
  exact (removeVertex_stays (k := e.src) rfl).bind fun _ _ => removeVertex_stays (k := e.dst) rfl

theorem stale_stays (he : e.graph = g) :
    (do discard (removeEdge e); return .stale e : Program ω (Step ω)).Stays g fun _ => True :=
  (removeEdge_stays he).bind fun _ _ => stays_pure trivial

variable [Weight ω]

theorem neighbors_stays {k : VertexKey} (hk : k.graph = g) :
    (Program.neighbors k : Program ω _).Stays g fun _ => True :=
  (stays_call (c := .destinations k) hk).bind fun _ _ =>
    (stays_call (c := .sources k) hk).bind fun _ _ => stays_pure trivial

theorem merge_stays (he : e.graph = g) (w : ω) : (merge e w).Stays g fun _ => True := by
  unfold merge
  refine (neighbors_stays (k := e.src) he).bind fun fromA _ => ?_
  refine (neighbors_stays (k := e.dst) he).bind fun fromB _ => ⟨he, fun r _ => ?_⟩
  cases r with
  | ok k => exact (replaceParts_stays he _ _ _ _).bind fun _ _ => stays_pure trivial
  | error cause =>
    cases cause with
    | vertexNotFound missing => exact stale_stays he
    | graphMismatch | selfLoop | invalidWeight | backend => exact nofun
  | crash => exact nofun

theorem checkThreshold_stays (g : GraphId) (t : ω) :
    (checkThreshold t).Stays g fun _ => True := by
  rw [checkThreshold]
  split
  · exact stays_pure trivial
  · exact stays_fail _

theorem step_stays (g : GraphId) (t : ω) : (step g t).Stays g fun _ => True := by
  unfold step
  refine (checkThreshold_stays g t).bind fun _ _ => ?_
  refine (stays_call (c := .lightest g) rfl).bind fun (found : Option (Edge × ω)) hfound => ?_
  cases found with
  | none => exact stays_pure trivial
  | some p =>
    obtain ⟨e, w⟩ := p
    have he : e.graph = g := hfound (e, w) rfl
    dsimp only
    split
    · exact stays_pure trivial
    · have hboth (both : Bool) : (if both = true then merge e w else do
          discard (removeEdge e)
          return .stale e : Program ω (Step ω)).Stays g fun _ => True := by
        split
        · exact merge_stays he w
        · exact stale_stays he
      refine (live_stays (k := e.src) he).bind fun srcLive _ => ?_
      split
      · exact (live_stays (k := e.dst) he).bind fun both _ => hboth both
      · exact (stays_pure (Q := fun _ => True) trivial).bind fun both _ => hboth both

theorem loop_stays (g : GraphId) (t : ω) (allowance merges stale : Nat) :
    (loop g t allowance merges stale).Stays g fun _ => True := by
  induction allowance generalizing merges stale with
  | zero => exact stays_fail _
  | succ n ih =>
    unfold loop
    refine (step_stays g t).bind fun s _ => ?_
    cases s with
    | merged x => exact ih (merges + 1) stale
    | stale e => exact ih merges (stale + 1)
    | done stop => exact stays_pure trivial

theorem cluster_stays (allowance : Nat) (g : GraphId) (t : ω) :
    (cluster allowance g t).Stays g fun _ => True := by
  unfold cluster
  refine (checkThreshold_stays g t).bind fun _ _ => ?_
  refine (loop_stays g t allowance 0 0).bind fun _ _ => ?_
  exact (stays_call (c := .clusters g) rfl).bind fun _ _ => stays_pure trivial

end Drain

namespace Sweep

theorem overEdges_stays (live : SortedSet VertexId) {l : List (Edge × ω)}
    (hl : ∀ p ∈ l, p.1.graph = g) (removed : Nat) (connected : SortedSet VertexId) :
    (overEdges live l removed connected).Stays g fun _ => True := by
  induction l generalizing removed connected with
  | nil => exact stays_pure trivial
  | cons p rest ih =>
    obtain ⟨e, w⟩ := p
    rw [List.forall_mem_cons] at hl
    unfold overEdges
    split
    · exact ih hl.2 _ _
    · exact (stays_call (c := .removeEdge e) hl.1).bind fun _ _ => ih hl.2 _ _

theorem sweep_stays (g : GraphId) : (sweep g : Program ω SweepReport).Stays g fun _ => True := by
  unfold sweep
  refine (stays_call (c := .clusters g) rfl).bind fun _ _ => ?_
  refine (stays_call (c := .edges g) rfl).bind fun _ hedges => ?_
  exact (overEdges_stays _ hedges 0 ∅).bind fun _ _ => stays_pure trivial

end Sweep

namespace Scorer

theorem liveSingleton_stays (g : GraphId) (e : EntityKey) :
    (liveSingleton g e : Program ω VertexKey).Stays g fun k => k.graph = g := by
  refine (stays_call (c := .singleton g e) rfl).bind fun k hk => ?_
  refine (live_stays hk).bind fun _ _ => ?_
  split
  · exact stays_pure hk
  · exact stays_fail _

variable [Weight ω]

theorem record_stays (s : Scorer ω) (g : GraphId) (a : EntityKey) (entityA : Entity)
    (b : EntityKey) (entityB : Entity) (index : PropertyIndex) :
    (s.record g a entityA b entityB index).Stays g fun _ => True := by
  unfold record
  split
  · exact (liveSingleton_stays g a).bind fun _ _ => stays_pure trivial
  · refine (liveSingleton_stays g a).bind fun x hx => ?_
    refine (liveSingleton_stays g b).bind fun y hy => ?_
    refine Stays.bind (Q := fun _ => True) (fun _ _ => trivial) fun w _ => ?_
    refine Stays.bind (Q := fun e => e.graph = g) ?_ fun e he => ?_
    · rw [Edge.between, if_neg (not_not_intro (hx.trans hy.symm))]
      cases Link.between? x.vertex y.vertex with
      | none => exact nofun
      | some l => exact stays_pure hx
    · exact (stays_call (c := .putEdge e w) he).bind fun _ _ => stays_pure trivial

end Scorer

section

variable [Weight ω]

theorem PairTask.process_stays (t : PairTask) (source : EntitySource ω) (scorer : Scorer ω) :
    (t.process source scorer).Stays t.graph fun _ => True :=
  Stays.bind (Q := fun _ => True) (fun _ _ => trivial) fun _ _ => Scorer.record_stays _ _ _ _ _ _ _

theorem recordAll_stays (source : EntitySource ω) (scorer : Scorer ω) {tasks : List PairTask}
    (htasks : ∀ t ∈ tasks, t.graph = g) (s : BlockState ω) :
    (recordAll source scorer tasks s).Stays g fun _ => True := by
  induction tasks generalizing s with
  | nil => exact stays_pure trivial
  | cons t rest ih =>
    obtain ⟨rfl, hrest⟩ := List.forall_mem_cons.mp htasks
    refine (t.process_stays source scorer).attempt.bind fun r _ => ?_
    dsimp only
    split
    · exact stays_pure trivial
    · exact ih hrest _

theorem recordBlock_stays (source : EntitySource ω) (scorer : Scorer ω) (tally : Tally ω)
    (g : GraphId) (entries : List BlockEntry) (context : BlockContext) :
    (recordBlock source scorer tally g entries context).Stays g fun _ => True := by
  unfold recordBlock
  split
  · exact stays_fail _
  · rename_i plan hplan
    have htasks : ∀ t ∈ plan.tasks, t.graph = g := by
      rw [BlockPlan.ofEntries] at hplan
      split at hplan
      · cases hplan
      · cases hplan
        intro t ht
        obtain ⟨p, -, rfl⟩ := List.mem_map.mp ht
        rfl
    exact (recordAll_stays source scorer htasks _).bind fun _ _ => stays_pure trivial

end

end RecordLinkage
