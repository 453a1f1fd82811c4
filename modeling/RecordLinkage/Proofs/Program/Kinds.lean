import RecordLinkage.Block.Run
import RecordLinkage.Drain
import RecordLinkage.Fault
import RecordLinkage.Sweep
import RecordLinkage.Proofs.Program.Rules

namespace RecordLinkage

namespace CallKind

def scoring : List CallKind := [.singleton, .cluster, .putEdge]

def draining : List CallKind :=
  [.lightest, .cluster, .destinations, .sources, .merge, .putEdge, .removeEdge, .removeVertex,
    .clusters]

def sweeping : List CallKind := [.clusters, .edges, .removeEdge]

end CallKind

/-- Every call of a procedure is of one of certain kinds. -/
def Program.Makes {ω α : Type} (kinds : List CallKind) (p : Program ω α) : Prop :=
  p.Only fun c => c.kind ∈ kinds

open Program CallKind

variable {ω : Type}

theorem Program.Makes.mono {α : Type} {kinds kinds' : List CallKind} {p : Program ω α}
    (hp : p.Makes kinds) (h : kinds ⊆ kinds') : p.Makes kinds' :=
  Only.mono hp fun _ hc => h hc

namespace Scorer

theorem liveSingleton_makes (g : GraphId) (e : EntityKey) :
    (liveSingleton g e : Program ω VertexKey).Makes scoring := by
  refine Only.bind (only_call (by simp [Call.kind, scoring])) fun k => ?_
  refine Only.bind (Only.bind (only_call (by simp [Call.kind, scoring])) fun _ => ?_) fun live => ?_
  · exact only_done _
  · split <;> exact only_done _

variable [Weight ω]

theorem record_makes (s : Scorer ω) (g : GraphId) (a : EntityKey) (entityA : Entity)
    (b : EntityKey) (entityB : Entity) (index : PropertyIndex) :
    (s.record g a entityA b entityB index).Makes scoring := by
  unfold record
  split
  · exact Only.bind (liveSingleton_makes g a) fun _ => only_done _
  · refine Only.bind (liveSingleton_makes g a) fun x => ?_
    refine Only.bind (liveSingleton_makes g b) fun y => ?_
    refine Only.bind (only_done _) fun w => ?_
    refine Only.bind ?_ fun e => ?_
    · unfold ofStore
      split <;> exact only_done _
    · exact Only.bind (only_call (by simp [Call.kind, scoring])) fun _ => only_done _

end Scorer

section

variable [Weight ω]

theorem PairTask.process_makes (t : PairTask) (source : EntitySource ω) (scorer : Scorer ω) :
    (t.process source scorer).Makes scoring :=
  Only.bind (only_done _) fun _ => Scorer.record_makes _ _ _ _ _ _ _

theorem recordAll_makes (source : EntitySource ω) (scorer : Scorer ω) (tasks : List PairTask)
    (s : BlockState ω) : (recordAll source scorer tasks s).Makes scoring := by
  induction tasks generalizing s with
  | nil => exact only_done _
  | cons t rest ih =>
    refine Only.bind (t.process_makes source scorer).attempt fun r => ?_
    dsimp only
    split
    · exact only_done _
    · exact ih _

theorem recordBlock_makes (source : EntitySource ω) (scorer : Scorer ω) (tally : Tally ω)
    (g : GraphId) (entries : List BlockEntry) (context : BlockContext) :
    (recordBlock source scorer tally g entries context).Makes scoring := by
  unfold recordBlock
  split
  · exact only_done _
  · exact Only.bind (recordAll_makes _ _ _ _) fun _ => only_done _

end

namespace Drain

theorem edgeWithin_makes (g : GraphId) (a b : VertexId) :
    (edgeWithin g a b : Program ω Edge).Makes [] := by
  unfold edgeWithin ofStore
  split <;> exact only_done _

theorem putLinks_makes (g : GraphId) (k : VertexId) (links : List (VertexId × ω)) :
    (links.forM fun p => do putEdge (← edgeWithin g k p.1) p.2 : Program ω Unit).Makes
      [.putEdge] := by
  refine only_forM fun p _ => ?_
  refine Only.bind ((edgeWithin_makes g k p.1).mono (List.nil_subset _)) fun _ => ?_
  exact only_call (by simp [Call.kind])

theorem removeEdge_makes (e : Edge) : (discard (removeEdge e) : Program ω Unit).Makes [.removeEdge] :=
  Only.discard (only_call (by simp [Call.kind]))

theorem unlink_makes (g : GraphId) (v : VertexId) (l : List VertexId) :
    (unlink g v l : Program ω Unit).Makes [.removeEdge] := by
  refine only_forM fun u _ => ?_
  refine Only.bind ((edgeWithin_makes g v u).mono (List.nil_subset _)) fun e => ?_
  exact removeEdge_makes e

theorem stale_makes (e : Edge) :
    (do discard (removeEdge e); return .stale e : Program ω (Step ω)).Makes [.removeEdge] :=
  Only.bind (removeEdge_makes e) fun _ => only_done _

/-- All that is put when the ends of an edge are replaced by their union are the given links. -/
theorem replaceParts_only {P : Call ω → Prop} (e : Edge) (k : VertexId)
    {links : SortedMap VertexId ω} (fromA fromB : SortedMap VertexId ω)
    (hput : ∀ p ∈ links.toList, ∀ e', P (.putEdge e' p.2)) (hremove : ∀ e', P (.removeEdge e'))
    (hretire : ∀ v, P (.removeVertex v)) : (replaceParts e k links fromA fromB).Only P := by
  have hwithin (a b : VertexId) : (edgeWithin e.graph a b : Program ω Edge).Only P :=
    Only.mono (edgeWithin_makes e.graph a b) fun _ h => absurd h List.not_mem_nil
  have hunlink (v : VertexId) (others : List VertexId) : (unlink e.graph v others).Only P :=
    only_forM fun u _ => (hwithin v u).bind fun e' => (only_call (hremove e')).discard
  unfold replaceParts
  refine Only.bind (only_forM fun p hp => ?_) fun _ => ?_
  · exact (hwithin k p.1).bind fun e' => only_call (hput p hp e')
  refine (hunlink e.link.src _).bind fun _ => (hunlink e.link.dst _).bind fun _ => ?_
  refine (only_call (hremove e)).discard.bind fun _ => ?_
  exact (only_call (hretire e.src)).discard.bind fun _ => (only_call (hretire e.dst)).discard

theorem replaceParts_makes (e : Edge) (k : VertexId) (links fromA fromB : SortedMap VertexId ω) :
    (replaceParts e k links fromA fromB).Makes [.putEdge, .removeEdge, .removeVertex] :=
  replaceParts_only e k fromA fromB (fun _ _ _ => by simp [Call.kind])
    (fun _ => by simp [Call.kind]) fun _ => by simp [Call.kind]

variable [Weight ω]

theorem neighbors_makes (k : VertexKey) :
    (Program.neighbors k : Program ω _).Makes [.destinations, .sources] := by
  refine Only.bind (only_call (by simp [Call.kind])) fun _ => ?_
  exact Only.bind (only_call (by simp [Call.kind])) fun _ => only_done _

theorem checkThreshold_makes (t : ω) : (checkThreshold t : Program ω Unit).Makes [] := by
  unfold checkThreshold
  split <;> exact only_done _

omit [Weight ω] in
theorem live_makes (k : VertexKey) : (Program.live k : Program ω Bool).Makes [.cluster] :=
  Only.bind (only_call (by simp [Call.kind])) fun _ => only_done _

theorem merge_makes (e : Edge) (w : ω) : (merge e w).Makes draining := by
  unfold merge
  refine Only.bind ((neighbors_makes _).mono (by decide)) fun fromA => ?_
  refine Only.bind ((neighbors_makes _).mono (by decide)) fun fromB => ?_
  refine ⟨by simp [Call.kind, draining], fun r => ?_⟩
  rcases r with k | cause | _
  · exact Only.bind ((replaceParts_makes _ _ _ _ _).mono (by decide)) fun _ => only_done _
  · cases cause with
    | vertexNotFound missing => exact (stale_makes e).mono (by decide)
    | graphMismatch | selfLoop | invalidWeight | backend => exact only_done _
  · exact only_done _

theorem step_makes (g : GraphId) (t : ω) : (step g t).Makes draining := by
  unfold step
  refine Only.bind ((checkThreshold_makes t).mono (List.nil_subset _)) fun _ => ?_
  refine Only.bind (only_call (by simp [Call.kind, draining])) fun found => ?_
  have hend (e : Edge) (w : ω) (both : Bool) : (if both = true then merge e w else do
      discard (removeEdge e)
      return .stale e : Program ω (Step ω)).Makes draining := by
    split
    · exact merge_makes e w
    · exact (stale_makes e).mono (by decide)
  split
  · exact only_done _
  · split
    · exact only_done _
    · refine Only.bind ((live_makes _).mono (by decide)) fun srcLive => ?_
      split
      · exact Only.bind ((live_makes _).mono (by decide)) (hend _ _)
      · exact Only.bind (only_done _) (hend _ _)

theorem loop_makes (g : GraphId) (t : ω) (allowance merges stale : Nat) :
    (loop g t allowance merges stale).Makes draining := by
  induction allowance generalizing merges stale with
  | zero => exact only_done _
  | succ n ih =>
    refine Only.bind (step_makes g t) fun s => ?_
    split
    · exact ih _ _
    · exact ih _ _
    · exact only_done _

theorem cluster_makes (allowance : Nat) (g : GraphId) (t : ω) :
    (cluster allowance g t).Makes draining := by
  unfold cluster
  refine Only.bind ((checkThreshold_makes t).mono (List.nil_subset _)) fun _ => ?_
  refine Only.bind (loop_makes g t allowance 0 0) fun _ => ?_
  exact Only.bind (only_call (by simp [Call.kind, draining])) fun _ => only_done _

end Drain

namespace Sweep

theorem overEdges_makes (live : SortedSet VertexId) (l : List (Edge × ω)) (removed : Nat)
    (connected : SortedSet VertexId) : (overEdges live l removed connected).Makes sweeping := by
  induction l generalizing removed connected with
  | nil => exact only_done _
  | cons p rest ih =>
    obtain ⟨e, w⟩ := p
    unfold overEdges
    split
    · exact ih _ _
    · exact Only.bind (only_call (by simp [Call.kind, sweeping])) fun _ => ih _ _

theorem sweep_makes (g : GraphId) : (sweep g : Program ω SweepReport).Makes sweeping := by
  unfold sweep
  refine Only.bind (only_call (by simp [Call.kind, sweeping])) fun _ => ?_
  refine Only.bind (only_call (by simp [Call.kind, sweeping])) fun _ => ?_
  exact Only.bind (overEdges_makes _ _ _ _) fun _ => only_done _

end Sweep

end RecordLinkage
