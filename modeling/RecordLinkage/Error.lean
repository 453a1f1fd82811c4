import RecordLinkage.Graph.Edge
import RecordLinkage.Weight

namespace RecordLinkage

inductive StoreError (ω : Type) where
  | vertexNotFound (key : VertexKey)
  | graphMismatch (left right : GraphId)
  | selfLoop (key : VertexKey)
  | invalidWeight (weight : ω)
  | backend (message : String)
  deriving DecidableEq, Repr

inductive ScoringError (ω : Type) where
  | unavailable (message : String)
  | invalidScore (score : ω)
  | featureExtraction (message : String)
  deriving DecidableEq, Repr

/-- Why an argument is refused before any work is done. -/
inductive ValidationError (ω : Type) where
  | threshold (value : ω)
  | bias (value : ω)
  | zeroPollInterval
  | zeroMaxStalls
  | mixedBlock (graph other : String)
  deriving DecidableEq, Repr

/-- A wait that saw no progress for too many polls. -/
structure Stall where
  remaining : Nat
  polls : Nat
  failed : Nat
  deriving DecidableEq, Repr

/-- Why settings cannot be read from their sources. The texts name what was found and what was
expected of the field. -/
inductive SettingsError where
  | malformed
  | wrongType (field found expected : String)
  | outOfRange (field found expected : String)
  deriving DecidableEq, Repr

inductive Error (ω : Type) where
  | validation (cause : ValidationError ω)
  | store (cause : StoreError ω)
  | scoring (cause : ScoringError ω)
  | stall (cause : Stall)
  | entityNotFound (key : EntityKey)
  | missingSyncId (set : EntitySetId)
  | queueFull (path : String) (capacity : Nat)
  | disconnected (path : String)
  | timeout (milliseconds : Nat)
  | settings (cause : SettingsError)
  | internal (message : String)
  deriving DecidableEq, Repr

variable {ω : Type} [Weight ω]

def StoreError.message : StoreError ω → String
  | .vertexNotFound key => "Vertex not found: " ++ key.text
  | .graphMismatch left right => "Graph mismatch: " ++ left.text ++ " vs " ++ right.text
  | .selfLoop key => "Self-loop on vertex " ++ key.text
  | .invalidWeight w => "Invalid edge weight: " ++ Weight.text w
  | .backend message => "Storage backend error: " ++ message

def ScoringError.message : ScoringError ω → String
  | .unavailable message => "Scoring oracle unavailable: " ++ message
  | .invalidScore score => "Scoring oracle returned an invalid score: " ++ Weight.text score
  | .featureExtraction message => "Feature extraction failed: " ++ message

def ValidationError.message : ValidationError ω → String
  | .threshold t => "Threshold " ++ Weight.text t ++ " must be finite and greater than 0"
  | .bias b => "Score bias " ++ Weight.text b ++ " must be finite and non-negative"
  | .zeroPollInterval => "Poll interval must be greater than 0"
  | .zeroMaxStalls => "Max stalls must be at least 1"
  | .mixedBlock graph other =>
    "Block for graph " ++ graph ++ " contains an entity from another graph (" ++
      other ++ ")"

def Stall.message (s : Stall) : String :=
  "no progress after " ++ toString s.polls ++ " polls with " ++ toString s.remaining ++
    " pairs outstanding (" ++ toString s.failed ++ " failed)"

def SettingsError.message : SettingsError → String
  | .malformed => "malformed settings"
  | .wrongType _ found expected => "invalid type: found " ++ found ++ ", expected " ++ expected
  | .outOfRange _ found expected => "invalid value " ++ found ++ ", expected " ++ expected

namespace Error

def message : Error ω → String
  | .validation e => "Validation error: " ++ e.message
  | .store e => "Storage error: " ++ e.message
  | .scoring e => "Scoring error: " ++ e.message
  | .stall s => "Stalled: " ++ s.message
  | .entityNotFound key => "Entity not found: " ++ key.text
  | .missingSyncId set => "No sync id registered for entity set " ++ set.text
  | .queueFull path capacity =>
    "Queue full on " ++ path ++ " path (capacity " ++ toString capacity ++ ")"
  | .disconnected path => "Worker pool disconnected on " ++ path ++ " path"
  | .timeout ms => "Operation timed out after " ++ toString ms ++ "ms"
  | .settings e => "Configuration error: " ++ e.message
  | .internal message => "Internal error: " ++ message

/-- Whether the same call may succeed when it is made again. -/
def retryable : Error ω → Bool
  | .store (.backend _) => true
  | .scoring (.unavailable _) => true
  | .stall _ => true
  | .queueFull _ _ => true
  | .timeout _ => true
  | _ => false

end Error

end RecordLinkage
