import RecordLinkage.Key

namespace RecordLinkage

structure Link where
  src : VertexId
  dst : VertexId
  deriving DecidableEq, Repr

namespace Link

instance : SortKey Link := .byKey (fun l => (l.src, l.dst)) fun a b h => by
  cases a; cases b; simp_all

/-- The link between two vertices, lower end first; there is none from a vertex to itself. -/
def between? (a b : VertexId) : Option Link :=
  match compare a b with
  | .lt => some ⟨a, b⟩
  | .eq => none
  | .gt => some ⟨b, a⟩

def other? (l : Link) (v : VertexId) : Option VertexId :=
  if v = l.src then some l.dst else if v = l.dst then some l.src else none

end Link

structure Edge where
  graph : GraphId
  link : Link
  deriving DecidableEq, Repr

namespace Edge

def src (e : Edge) : VertexKey := ⟨e.graph, e.link.src⟩

def dst (e : Edge) : VertexKey := ⟨e.graph, e.link.dst⟩

def text (e : Edge) : String :=
  e.graph.text ++ ":\x7b" ++ e.link.src.text ++ ", " ++ e.link.dst.text ++ "\x7d"

end Edge

end RecordLinkage
