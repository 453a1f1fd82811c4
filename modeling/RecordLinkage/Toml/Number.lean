import RecordLinkage.Settings.Value
import RecordLinkage.Text.Reader

namespace RecordLinkage.Toml

open Reader

/-- Further digits, each of which may have one underscore in front of it. -/
def moreDigits (p : Char → Bool) : List Char → List Char × List Char
  | '_' :: c :: rest =>
    if p c then
      let (ds, rest) := moreDigits p rest
      (c :: ds, rest)
    else ([], '_' :: c :: rest)
  | c :: rest =>
    if p c then
      let (ds, rest) := moreDigits p rest
      (c :: ds, rest)
    else ([], c :: rest)
  | [] => ([], [])

def digits (p : Char → Bool) : Reader (List Char) := do
  let first ← next? p
  let more ← fun s => some (moreDigits p s)
  return first :: more

/-- Decimal digits, where only zero itself starts with a zero. -/
def wholeDigits : Reader (List Char) := do
  if ← accept ['0'] then return ['0']
  digits Char.isDigit

def based (mark : Char) (base : Nat) (p : Char → Bool) : Reader Int := do
  expect ['0', mark]
  return (← Hex.number? base (← digits p) : Nat)

/-- Whole numbers have to fit in 64 bits with their sign. -/
def integer : Reader Int := do
  let n ← based 'x' 16 (fun c => (Hex.value? c).isSome) <|>
    based 'o' 8 (fun c => c.isDigit && c.toNat < 56) <|>
    based 'b' 2 (fun c => c = '0' || c = '1') <|> do
      let negative ← sign
      let n := natOfDigits (← wholeDigits)
      return if negative then -(n : Int) else n
  if -0x8000000000000000 ≤ n ∧ n < 0x8000000000000000 then return n else failure

def exponent : Reader Int := do
  discard (next? fun c => c = 'e' || c = 'E')
  let negative ← sign
  let n := natOfDigits (← digits Char.isDigit)
  return if negative then -(n : Int) else n

/-- Infinity and NaN by name, or a number with a point or an exponent. A number that is too large is
refused, but one that is too far below zero stands for minus infinity. -/
def real : Reader Binary64 := do
  let negative ← sign
  if ← accept ['i', 'n', 'f'] then
    return .ofMagnitude negative Binary64.infinityMagnitude
  if ← accept ['n', 'a', 'n'] then
    return .ofMagnitude negative Binary64.nan.magnitude
  let whole ← wholeDigits
  let fraction ← optional do
    expect ['.']
    digits Char.isDigit
  let power ← optional exponent
  if fraction.isNone && power.isNone then failure
  let fraction := fraction.getD []
  let x := Binary64.ofDecimal negative
    ⟨natOfDigits (whole ++ fraction), power.getD 0 - fraction.length⟩
  if x = Binary64.infinity then failure
  return x

def bounded (count low high : Nat) : Reader Nat := do
  let n := natOfDigits (← exactly count Char.isDigit)
  if low ≤ n ∧ n ≤ high then return n else failure

def leap (year : Nat) : Bool := year % 4 = 0 && (year % 100 ≠ 0 || year % 400 = 0)

def daysOf (year month : Nat) : Nat :=
  if month = 2 then (if leap year then 29 else 28)
  else if month = 4 ∨ month = 6 ∨ month = 9 ∨ month = 11 then 30
  else 31

def date : Reader Unit := do
  let year ← bounded 4 0 9999
  expect ['-']
  let month ← bounded 2 1 12
  expect ['-']
  discard (bounded 2 1 (daysOf year month))

def time : Reader Unit := do
  discard (bounded 2 0 23)
  expect [':']
  discard (bounded 2 0 59)
  expect [':']
  discard (bounded 2 0 60)
  discard (optional do
    expect ['.']
    discard (next? Char.isDigit)
    skipWhile Char.isDigit)

def offset : Reader Unit :=
  (discard (next? fun c => c = 'Z' || c = 'z')) <|> do
    discard (next? fun c => c = '+' || c = '-')
    discard (bounded 2 0 23)
    expect [':']
    discard (bounded 2 0 59)

def moment : Reader Unit :=
  (do
    date
    discard (optional do
      discard (next? fun c => c = 'T' || c = 't' || c = ' ')
      time
      optional offset)) <|> time

end RecordLinkage.Toml
