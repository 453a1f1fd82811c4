import RecordLinkage.Proofs.Crew.Basic

namespace RecordLinkage

/-- Vertices may be removed by whoever has merged them. -/
def licences (ω : Type) : Rules ω (List VertexKey) where
  allows held c := match c with
    | .removeVertex k => k ∈ held
    | _ => True
  next held c r := match c, r with
    | .merge a b _, .ok _ => a :: b :: held
    | _, _ => held

open Program

variable {ω : Type} {α : Type} {held : List VertexKey}

def Program.Licensed (p : Program ω α) (held : List VertexKey) : Prop :=
  p.Obeys (licences ω) (fun _ _ => True) held

namespace Program

theorem licensed_done (r : Outcome (Error ω) α) : (.done r : Program ω α).Licensed held := trivial

theorem Licensed.bind {β : Type} {p : Program ω α} {f : α → Program ω β} (hp : p.Licensed held)
    (hf : ∀ held a, (f a).Licensed held) : (p >>= f).Licensed held :=
  Obeys.bind hp (fun held a _ => hf held a) (fun _ _ h => h) fun _ h => h

theorem Licensed.discard {p : Program ω α} (hp : p.Licensed held) :
    (discard p).Licensed held := hp.bind fun _ _ => licensed_done _

/-- Calls that neither merge nor remove vertices need no licence and give none. -/
theorem Makes.unlicensed {p : Program ω α} {kinds : List CallKind} (hp : p.Makes kinds)
    (hkinds : CallKind.merge ∉ kinds ∧ CallKind.removeVertex ∉ kinds) (held : List VertexKey) :
    p.Obeys (licences ω) (fun held' _ => held' = held) held := by
  apply Only.obeys hp
  intro held c hc
  cases c with
  | merge a b w => exact absurd hc hkinds.1
  | removeVertex k => exact absurd hc hkinds.2
  | _ => exact ⟨trivial, fun _ => rfl⟩

theorem Makes.licensed {p : Program ω α} {kinds : List CallKind} (hp : p.Makes kinds)
    (hkinds : CallKind.merge ∉ kinds ∧ CallKind.removeVertex ∉ kinds) (held : List VertexKey) :
    p.Licensed held := (hp.unlicensed hkinds held).mono fun _ _ _ => trivial

theorem Makes.then_licensed {β : Type} {p : Program ω α} {f : α → Program ω β}
    {kinds : List CallKind} (hp : p.Makes kinds)
    (hkinds : CallKind.merge ∉ kinds ∧ CallKind.removeVertex ∉ kinds)
    (hf : ∀ a, (f a).Licensed held) : (p >>= f).Licensed held := by
  apply (hp.unlicensed hkinds held).bind
  · intro held' a hsame
    exact hsame ▸ hf a
  · exact fun _ _ _ => trivial
  · exact fun _ _ => trivial

end Program

namespace Drain

/-- With licences for the parts of a union, replacing them is in order. -/
theorem replaceParts_licensed {e : Edge} (hsrc : e.src ∈ held) (hdst : e.dst ∈ held) (k : VertexId)
    (links fromA fromB : SortedMap VertexId ω) :
    (replaceParts e k links fromA fromB).Licensed held := by
  apply (putLinks_makes _ _ _).then_licensed (by decide)
  intro _
  apply (unlink_makes _ _ _).then_licensed (by decide)
  intro _
  apply (unlink_makes _ _ _).then_licensed (by decide)
  intro _
  apply (removeEdge_makes _).then_licensed (by decide)
  intro _
  refine ⟨hsrc, fun r => ?_⟩
  have hlast : (discard (removeVertex e.dst) : Program ω Unit).Licensed held :=
    ⟨hdst, fun r => by cases r <;> exact trivial⟩
  cases r with
  | ok b => exact hlast
  | error cause => exact trivial
  | crash => exact trivial

variable [Weight ω]

theorem merge_licensed (e : Edge) (w : ω) (held : List VertexKey) : (merge e w).Licensed held := by
  apply (neighbors_makes _).then_licensed (by decide)
  intro fromA
  apply (neighbors_makes _).then_licensed (by decide)
  intro fromB
  refine ⟨trivial, fun r => ?_⟩
  -- Only a union that was made gives licences.
  rcases r with k | cause | _
  · have hparts : e.src ∈ e.src :: e.dst :: held ∧ e.dst ∈ e.src :: e.dst :: held := by simp
    exact (replaceParts_licensed hparts.1 hparts.2 _ _ _ _).bind fun _ _ => licensed_done _
  · cases cause with
    | vertexNotFound missing => exact (stale_makes e).licensed (by decide) held
    | graphMismatch | selfLoop | invalidWeight | backend => exact trivial
  · exact trivial

theorem step_licensed (g : GraphId) (t : ω) (held : List VertexKey) : (step g t).Licensed held := by
  have hend (e : Edge) (w : ω) (both : Bool) (held : List VertexKey) :
      (if both = true then merge e w else do
        discard (removeEdge e)
        return .stale e : Program ω (Step ω)).Licensed held := by
    split
    · exact merge_licensed e w held
    · exact (stale_makes e).licensed (by decide) held
  have hlightest : (lightest? g : Program ω _).Makes [.lightest] := only_call (by simp [Call.kind])
  apply (checkThreshold_makes t).then_licensed (by decide)
  intro _
  apply hlightest.then_licensed (by decide)
  intro found
  split
  · exact licensed_done _
  · split
    · exact licensed_done _
    · apply (live_makes _).then_licensed (by decide)
      intro srcLive
      split
      · apply (live_makes _).then_licensed (by decide)
        intro dstLive
        exact hend _ _ dstLive held
      · exact (licensed_done _).bind fun held' dstLive => hend _ _ dstLive held'

theorem loop_licensed (g : GraphId) (t : ω) (allowance merges stale : Nat)
    (held : List VertexKey) : (loop g t allowance merges stale).Licensed held := by
  induction allowance generalizing merges stale held with
  | zero => exact licensed_done _
  | succ n ih =>
    apply (step_licensed g t held).bind
    intro held' s
    split
    · exact ih _ _ held'
    · exact ih _ _ held'
    · exact licensed_done _

theorem cluster_licensed (allowance : Nat) (g : GraphId) (t : ω) (held : List VertexKey) :
    (cluster allowance g t).Licensed held := by
  apply (checkThreshold_makes t).then_licensed (by decide)
  intro _
  apply (loop_licensed g t allowance 0 0 held).bind
  intro held' result
  have hclusters : (clusters g : Program ω _).Makes [.clusters] := only_call (by simp [Call.kind])
  exact hclusters.then_licensed (by decide) fun _ => licensed_done _

end Drain

/-- No operation removes a vertex that it has not merged. -/
theorem Operation.licensed [Weight ω] (op : Operation ω) : op.program.Licensed [] := by
  cases op with
  | singleton g e =>
    have hcall : (Program.singleton g e : Program ω VertexKey).Makes CallKind.scoring :=
      only_call (by simp [Call.kind, CallKind.scoring])
    exact (hcall.licensed (by decide) []).discard
  | record scorer g a entityA b entityB index =>
    exact ((Scorer.record_makes ..).licensed (by decide) []).discard
  | process source scorer task =>
    exact ((PairTask.process_makes ..).licensed (by decide) []).discard
  | block source scorer tally g entries context =>
    exact ((recordBlock_makes ..).licensed (by decide) []).discard
  | step g t => exact (Drain.step_licensed g t []).discard
  | cluster allowance g t => exact (Drain.cluster_licensed allowance g t []).discard
  | sweep g => exact ((Sweep.sweep_makes g).licensed (by decide) []).discard

end RecordLinkage
