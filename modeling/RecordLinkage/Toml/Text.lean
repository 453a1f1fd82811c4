import RecordLinkage.Text.Quoted
import RecordLinkage.Text.Reader

namespace RecordLinkage.Toml

open Reader

def plain (c : Char) : Bool := c = '\t' || (0x20 ≤ c.toNat && c.toNat ≠ 0x7f)

def blank (c : Char) : Bool := c = ' ' || c = '\t'

def skipBlanks : Reader Unit := skipWhile blank

def newline : Reader Unit := expect ['\n'] <|> expect ['\r', '\n']

def comment : Reader Unit := do
  expect ['#']
  skipWhile plain

def lineEnd : Reader Unit := do
  skipBlanks
  discard (optional comment)
  if ← atEnd then return
  newline

def lineBreak? : List Char → Option (List Char)
  | '\n' :: rest => some rest
  | '\r' :: '\n' :: rest => some rest
  | _ => none

def skipSpace : Nat → List Char → List Char
  | 0, s => s
  | steps + 1, s =>
    let s := s.dropWhile blank
    match lineBreak? s with
    | some rest => skipSpace steps rest
    | none => s

def quoted : Nat → Reader (List Char)
  | 0 => failure
  | steps + 1 => do
    match ← next? plain with
    | '"' => return []
    | '\\' =>
      let c ← Quoted.escape?
      return c :: (← quoted steps)
    | c => return c :: (← quoted steps)

/-- Up to two quotes may stand right before the three that end a text of several lines. -/
def closing? (mark : Char) (s : List Char) : Option (List Char × List Char) :=
  let count := (s.takeWhile (· = mark)).length
  if 3 ≤ count then
    let extra := min (count - 3) 2
    some (List.replicate extra mark, s.drop (extra + 3))
  else none

/-- A text of several lines, with escapes. A backslash at the end of a line joins it with the next
text after it. -/
def quotedLines : Nat → Reader (List Char)
  | 0 => failure
  | steps + 1 => do
    if let some (extra, rest) := closing? '"' (← get) then
      set rest
      return extra
    if let some rest := lineBreak? (← get) then
      set rest
      return '\n' :: (← quotedLines steps)
    match ← next? plain with
    | '\\' =>
      let s ← get
      match lineBreak? (s.dropWhile blank) with
      | some rest =>
        set (skipSpace rest.length rest)
        quotedLines steps
      | none =>
        let c ← Quoted.escape?
        return c :: (← quotedLines steps)
    | c => return c :: (← quotedLines steps)

def literalLines : Nat → Reader (List Char)
  | 0 => failure
  | steps + 1 => do
    if let some (extra, rest) := closing? '\'' (← get) then
      set rest
      return extra
    if let some rest := lineBreak? (← get) then
      set rest
      return '\n' :: (← literalLines steps)
    let c ← next? plain
    return c :: (← literalLines steps)

def literal : Reader (List Char) := do
  let s ← takeWhile fun c => plain c && c ≠ '\''
  expect ['\'']
  return s

def shortText : Reader String := do
  let steps := (← get).length
  String.ofList <$> ((expect ['"'] *> quoted steps) <|> (expect ['\''] *> literal))

/-- A text in any notation. A line break right after three marks is dropped. -/
def text : Reader String := do
  let steps := (← get).length
  if ← accept ['"', '"', '"'] then
    discard (optional newline)
    String.ofList <$> quotedLines steps
  else if ← accept ['\'', '\'', '\''] then
    discard (optional newline)
    String.ofList <$> literalLines steps
  else shortText

def keyPart : Reader String :=
  shortText <|> do
    let s ← takeWhile fun c => c.isAlphanum || c = '_' || c = '-'
    if s.isEmpty then failure
    return String.ofList s

def keyParts : Nat → Reader (List String)
  | 0 => return []
  | steps + 1 => do
    skipBlanks
    if ← accept ['.'] then
      skipBlanks
      let part ← keyPart
      return part :: (← keyParts steps)
    else return []

/-- How many parts a key may have, and how deep lists and tables may lie inside each other. -/
def maxDepth : Nat := 79

def key : Reader (List String × String) := do
  skipBlanks
  let first ← keyPart
  let more ← keyParts (← get).length
  let parts := first :: more
  if maxDepth < parts.length then failure
  return (parts.dropLast, parts.getLastD first)

end RecordLinkage.Toml
