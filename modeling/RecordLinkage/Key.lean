import RecordLinkage.Uuid.Text

namespace RecordLinkage

inductive IdKind where
  | graph
  | vertex
  | entitySet
  | entity
  | sync
  | property
  deriving DecidableEq, Repr

/-- An identifier that cannot be taken for one of another kind. -/
structure Ident (kind : IdKind) where
  uuid : Uuid
  deriving DecidableEq, Repr

/-- One independent linking problem. -/
abbrev GraphId := Ident .graph

abbrev VertexId := Ident .vertex

abbrev EntitySetId := Ident .entitySet

abbrev EntityId := Ident .entity

abbrev SyncId := Ident .sync

abbrev PropertyId := Ident .property

namespace Ident

variable {kind : IdKind}

instance : SortKey (Ident kind) := .byKey uuid fun a b h => by cases a; cases b; simp_all

def text (i : Ident kind) : String := i.uuid.text

/-- Reads the hyphenated form, with letters in either case. -/
def ofText? (s : String) : Option (Ident kind) := (Uuid.ofHyphenated? s.toList).map Ident.mk

end Ident

/-- The space in which blocking keys name graphs. -/
def blockingKeySpace : Uuid := ⟨0x6c696e6b6772617068626c6f636b0001⟩

/-- All workers that see one blocking key agree on its graph. -/
def graphOfBlockingKey (key : String) : GraphId := ⟨.named blockingKeySpace key.toUTF8.toList⟩

structure EntityKey where
  set : EntitySetId
  entity : EntityId
  deriving DecidableEq, Repr

namespace EntityKey

instance : SortKey EntityKey := .byKey (fun k => (k.set, k.entity)) fun a b h => by
  cases a; cases b; simp_all

def text (k : EntityKey) : String := k.set.text ++ "/" ++ k.entity.text

def ofText? (s : String) : Option EntityKey :=
  match s.splitOn "/" with
  | [set, entity] => return ⟨← Ident.ofText? set, ← Ident.ofText? entity⟩
  | _ => none

def bytes (k : EntityKey) : List UInt8 := k.set.uuid.bytes ++ k.entity.uuid.bytes

/-- The vertex that stands for the entity alone. Graph and entity determine it, so that workers
agree on it without talking. -/
def singletonId (g : GraphId) (k : EntityKey) : VertexId := ⟨.named g.uuid k.bytes⟩

end EntityKey

structure VertexKey where
  graph : GraphId
  vertex : VertexId
  deriving DecidableEq, Repr

namespace VertexKey

instance : SortKey VertexKey := .byKey (fun k => (k.graph, k.vertex)) fun a b h => by
  cases a; cases b; simp_all

def text (k : VertexKey) : String := k.graph.text ++ ":" ++ k.vertex.text

def ofText? (s : String) : Option VertexKey :=
  match s.splitOn ":" with
  | [graph, vertex] => return ⟨← Ident.ofText? graph, ← Ident.ofText? vertex⟩
  | _ => none

end VertexKey

end RecordLinkage
