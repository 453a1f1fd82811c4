import RecordLinkage.Settings.Value

namespace RecordLinkage.Toml

/-- How a table came about: under a heading of its own, because a heading below it needed it, or
through the parts of a key. -/
inductive Origin where
  | heading
  | above
  | key
  deriving DecidableEq, Repr

/-- What a key stands for: a finished value, a table that may still grow, or a list of tables, of
which the last may still grow. -/
inductive Node where
  | value (v : Setting)
  | table (origin : Origin) (entries : List (String × Node))
  | tables (items : List (List (String × Node)))

abbrev Entries := List (String × Node)

namespace Entries

def find? (t : Entries) (key : String) : Option Node := t.lookup key

def put (t : Entries) (key : String) (n : Node) : Entries :=
  if (t.find? key).isSome then t.map fun e => if e.1 = key then (key, n) else e
  else t ++ [(key, n)]

/-- Changes the table at the end of a path. Missing tables on the way are made with the given
origin. A key with several parts cannot reach into a table that has a heading. -/
def descend (origin : Origin) (f : Origin → Entries → Option Entries) :
    List String → Origin → Entries → Option Entries
  | [], here, t => f here t
  | key :: path, _, t => do
    match (t.find? key).getD (.table origin []) with
    | .value _ => none
    | .table o entries =>
      if origin = .key ∧ o = .heading then none
      else return t.put key (.table o (← descend origin f path o entries))
    | .tables items =>
      let last ← items.getLast?
      return t.put key (.tables (items.dropLast ++ [← descend origin f path .heading last]))

/-- Gives a key in the present table a value. No key gets two values, and the last table on the way
has to be one that keys made. -/
def assign (here : Origin) (path : List String) (key : String) (v : Setting) (t : Entries) :
    Option Entries :=
  t.descend .key
    (fun o entries =>
      if decide (o = .key) = path.isEmpty ∨ (entries.find? key).isSome then none
      else some (entries.put key (.value v)))
    path here

/-- Begins a table under a heading. Only a table that a lower heading needed may be there. -/
def openTable (path : List String) (key : String) (t : Entries) : Option Entries :=
  t.descend .above
    (fun _ entries =>
      match entries.find? key with
      | none => some (entries.put key (.table .heading []))
      | some (.table .above inner) => some (entries.put key (.table .heading inner))
      | some _ => none)
    path .heading

def openItem (path : List String) (key : String) (t : Entries) : Option Entries :=
  t.descend .above
    (fun _ entries =>
      match entries.find? key with
      | none => some (entries.put key (.tables [[]]))
      | some (.tables items) => some (entries.put key (.tables (items ++ [[]])))
      | some _ => none)
    path .heading

def within (path : List String) (f : Entries → Option Entries) (t : Entries) : Option Entries :=
  t.descend .above (fun _ entries => f entries) path .heading

end Entries

mutual

def Node.toSetting : Node → Setting
  | .value v => v
  | .table _ entries => .table (settingsOf entries)
  | .tables items => .list (itemsOf items)

def settingsOf : List (String × Node) → List (String × Setting)
  | [] => []
  | (key, n) :: rest => (key, n.toSetting) :: settingsOf rest

def itemsOf : List (List (String × Node)) → List Setting
  | [] => []
  | entries :: rest => .table (settingsOf entries) :: itemsOf rest

end

end RecordLinkage.Toml
