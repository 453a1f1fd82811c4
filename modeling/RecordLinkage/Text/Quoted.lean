import RecordLinkage.Text.Hex
import RecordLinkage.Text.Hidden

namespace RecordLinkage.Quoted

def hex (n : Nat) : List Char := Nat.toDigits 16 n

def encodeChar (c : Char) : List Char :=
  if c = '\x00' then ['\\', '0']
  else if c = '\t' then ['\\', 't']
  else if c = '\n' then ['\\', 'n']
  else if c = '\r' then ['\\', 'r']
  else if c = '"' then ['\\', '"']
  else if c = '\\' then ['\\', '\\']
  else if hidden c then ['\\', 'u', '{'] ++ hex c.toNat ++ ['}']
  else [c]

/-- A text between quotes, in which quotes, backslashes and hidden characters are escaped. -/
def encode (s : String) : String :=
  String.ofList ('"' :: s.toList.flatMap encodeChar ++ ['"'])

def escapes : List (Char × Char) :=
  [('b', '\x08'), ('t', '\t'), ('n', '\n'), ('f', '\x0c'), ('r', '\r'), ('"', '"'), ('\\', '\\')]

def ofCode? (digits : List Char) : Option Char := do
  let n ← Hex.number? 16 digits
  if n.isValidChar then some (Char.ofNat n) else none

def escape? : List Char → Option (Char × List Char)
  | 'u' :: rest =>
    if (rest.take 4).length = 4 then (ofCode? (rest.take 4)).map (·, rest.drop 4) else none
  | 'U' :: rest =>
    if (rest.take 8).length = 8 then (ofCode? (rest.take 8)).map (·, rest.drop 8) else none
  | c :: rest => (escapes.lookup c).map (·, rest)
  | [] => none

end RecordLinkage.Quoted
