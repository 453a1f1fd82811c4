import RecordLinkage.Block.Pairs
import RecordLinkage.Block.Task

namespace RecordLinkage

/-- The scoring work of one block: a task for each pair, and the number that its progress counter
starts from. -/
structure BlockPlan where
  graph : GraphId
  total : Nat
  tasks : List PairTask
  deriving DecidableEq, Repr

namespace BlockPlan

variable {ω : Type}

/-- Plans a block. All entries have to be of its graph; an entity that is entered twice counts
once. -/
def ofEntries (g : GraphId) (entries : List BlockEntry) (context : BlockContext) :
    Except (ValidationError ω) BlockPlan :=
  match entries.find? fun e => e.graph ≠ g with
  | some e => .error (.mixedBlock g.text e.graph.text)
  | none =>
    let entities : SortedSet EntityKey := .ofList (entries.map BlockEntry.entity)
    .ok
      { graph := g
        total := pairCount entities.size
        tasks := (candidatePairs entities).map fun p => ⟨g, p.1, p.2, context⟩ }

end BlockPlan

end RecordLinkage
