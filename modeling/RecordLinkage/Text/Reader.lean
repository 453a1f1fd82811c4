namespace RecordLinkage

/-- Reads a value off the front of a text and leaves the rest; alternatives start over where the
first one started. -/
abbrev Reader (α : Type) := StateT (List Char) Option α

namespace Reader

variable {α : Type}

def all (p : Reader α) (s : List Char) : Option α :=
  match p s with
  | some (a, []) => some a
  | _ => none

def next? (p : Char → Bool) : Reader Char := fun
  | c :: rest => if p c then some (c, rest) else none
  | [] => none

def peek : Reader (Option Char) := return (← get).head?

def atEnd : Reader Bool := return (← get).isEmpty

def takeWhile (p : Char → Bool) : Reader (List Char) := fun s => some (s.takeWhile p, s.dropWhile p)

def skipWhile (p : Char → Bool) : Reader Unit := fun s => some ((), s.dropWhile p)

def expect (text : List Char) : Reader Unit := fun s =>
  if text.isPrefixOf s then some ((), s.drop text.length) else none

def accept (text : List Char) : Reader Bool := fun s =>
  if text.isPrefixOf s then some (true, s.drop text.length) else some (false, s)

def exactly (count : Nat) (p : Char → Bool) : Reader (List Char) := fun s =>
  let taken := s.take count
  if taken.length = count ∧ taken.all p then some (taken, s.drop count) else none

/-- Drops a sign, and tells whether it was a minus. -/
def sign : Reader Bool := do
  if ← accept ['-'] then return true
  discard (accept ['+'])
  return false

end Reader

def natOfDigits (cs : List Char) : Nat := cs.foldl (fun n c => 10 * n + (c.toNat - 48)) 0

end RecordLinkage
