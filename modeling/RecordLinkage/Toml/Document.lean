import RecordLinkage.Toml.Number
import RecordLinkage.Toml.Table
import RecordLinkage.Toml.Text

namespace RecordLinkage.Toml

open Reader

def skipLines : Nat → Reader Unit
  | 0 => return
  | steps + 1 => do
    skipBlanks
    discard (optional comment)
    if (lineBreak? (← get)).isSome then
      newline
      skipLines steps

/-- A value that is neither a list nor a table. A moment counts as a table. -/
def scalar : Reader Setting := do
  match ← peek with
  | some '"' => .text <$> text
  | some '\'' => .text <$> text
  | some 't' => expect ['t', 'r', 'u', 'e'] *> pure (.bool true)
  | some 'f' => expect ['f', 'a', 'l', 's', 'e'] *> pure (.bool false)
  | _ => (moment *> pure (.table [])) <|> (.real <$> real) <|> (.signed <$> integer)

mutual

/-- A value with so many levels of nesting at most; each level and each item takes a step. -/
def value : Nat → Nat → Reader Setting
  | 0, _ => failure
  | steps + 1, depth => do
    if ← accept ['['] then
      if depth = 0 then failure
      return .list (← items steps (depth - 1))
    else if ← accept ['{'] then
      if depth = 0 then failure
      skipBlanks
      if ← accept ['}'] then return .table []
      return .table (settingsOf (← pairs steps (depth - 1) []))
    else scalar

def items : Nat → Nat → Reader (List Setting)
  | 0, _ => failure
  | steps + 1, depth => do
    skipLines (← get).length
    if ← accept [']'] then return []
    let v ← value steps depth
    skipLines (← get).length
    if ← accept [','] then return v :: (← items steps depth)
    expect [']']
    return [v]

def pairs : Nat → Nat → Entries → Reader Entries
  | 0, _, _ => failure
  | steps + 1, depth, t => do
    let (path, last) ← key
    expect ['=']
    skipBlanks
    let v ← value steps depth
    let t ← t.assign .heading path last v
    skipBlanks
    if ← accept [','] then
      skipBlanks
      pairs steps depth t
    else
      expect ['}']
      return t

end

/-- A document while it is read: its root, and the table that pairs go to. -/
structure Draft where
  root : Entries
  current : List String

def heading (d : Draft) : Reader Draft := do
  if ← accept ['[', '['] then
    let (path, last) ← key
    expect [']', ']']
    return ⟨← d.root.openItem path last, path ++ [last]⟩
  else
    expect ['[']
    let (path, last) ← key
    expect [']']
    return ⟨← d.root.openTable path last, path ++ [last]⟩

def pair (d : Draft) : Reader Draft := do
  let (path, last) ← key
  expect ['=']
  skipBlanks
  let v ← value (← get).length maxDepth
  return { d with root := ← d.root.within d.current (Entries.assign .heading path last v) }

def line (d : Draft) : Reader Draft := do
  skipBlanks
  match ← peek with
  | none | some '#' | some '\n' | some '\r' => return d
  | some '[' => heading d
  | some _ => pair d

def lines : Nat → Draft → Reader Draft
  | 0, d => return d
  | steps + 1, d => do
    let d ← line d
    lineEnd
    if ← atEnd then return d
    lines steps d

/-- Reads a document; `none` if it is malformed. A byte order mark may come first. -/
def read (s : String) : Option (List (String × Setting)) :=
  let s := s.toList
  let s := if s.head? = some '\ufeff' then s.tail else s
  (all (lines (s.length + 1) ⟨[], []⟩) s).map fun d => settingsOf d.root

end RecordLinkage.Toml
