import RecordLinkage.Error
import RecordLinkage.Outcome
import RecordLinkage.Sorted.Map

namespace RecordLinkage

/-- The values of an entity by property. Values are compared for equality only. -/
structure Entity where
  properties : SortedMap PropertyId (SortedSet String)
  deriving DecidableEq, Repr

namespace Entity

def empty : Entity := ⟨∅⟩

instance : EmptyCollection Entity := ⟨empty⟩

def insert (e : Entity) (p : PropertyId) (value : String) : Entity :=
  ⟨SortedMap.alter e.properties p fun s => some ((s.getD ∅).insert value)⟩

def ofList (l : List (PropertyId × String)) : Entity := l.foldl (fun e p => e.insert p.1 p.2) ∅

def values? (e : Entity) (p : PropertyId) : Option (SortedSet String) :=
  SortedMap.get? e.properties p

def isEmpty (e : Entity) : Bool := e.properties.isEmpty

end Entity

/-- The properties that are compared, in the order of the rows of features. -/
structure PropertyIndex where
  properties : List PropertyId
  deriving DecidableEq, Repr

namespace PropertyIndex

def distinct : List PropertyId → SortedSet PropertyId → List PropertyId
  | [], _ => []
  | p :: rest, seen =>
    if seen.contains p then distinct rest seen else p :: distinct rest (seen.insert p)

def ofList (l : List PropertyId) : PropertyIndex := ⟨distinct l ∅⟩

end PropertyIndex

/-- An entity in the graph that it was blocked into. -/
structure BlockEntry where
  graph : GraphId
  entity : EntityKey
  deriving DecidableEq, Repr

abbrev SyncIds := SortedMap EntitySetId SyncId

/-- Reads an entity as of a version; `none` if it does not exist there. -/
abbrev EntitySource (ω : Type) := EntityKey → SyncId → Outcome (Error ω) (Option Entity)

def EntitySource.require {ω : Type} (source : EntitySource ω) (syncs : SyncIds) (k : EntityKey) :
    Outcome (Error ω) Entity :=
  match SortedMap.get? syncs k.set with
  | none => .error (.missingSyncId k.set)
  | some v => do
    match ← source k v with
    | some e => return e
    | none => .error (.entityNotFound k)

structure Catalog where
  snapshots : SortedMap (EntityKey × SyncId) Entity
  deriving DecidableEq, Repr

namespace Catalog

def empty : Catalog := ⟨∅⟩

def insert (c : Catalog) (k : EntityKey) (v : SyncId) (e : Entity) : Catalog :=
  ⟨SortedMap.put c.snapshots (k, v) e⟩

def find? (c : Catalog) (k : EntityKey) (v : SyncId) : Option Entity :=
  SortedMap.get? c.snapshots (k, v)

def source {ω : Type} (c : Catalog) : EntitySource ω := fun k v => .ok (c.find? k v)

end Catalog

end RecordLinkage
