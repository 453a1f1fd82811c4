import RecordLinkage.Toml.Document

namespace RecordLinkage.Override

open Reader

def space (c : Char) : Bool :=
  let n := c.toNat
  (9 ≤ n && n ≤ 13) || n = 0x20 || n = 0x85 || n = 0xa0 || n = 0x1680 ||
    (0x2000 ≤ n && n ≤ 0x200a) || n = 0x2028 || n = 0x2029 || n = 0x202f || n = 0x205f || n = 0x3000

def trim (s : List Char) : List Char :=
  ((s.dropWhile space).reverse.dropWhile space).reverse

def gap (c : Char) : Bool := c = ' ' || c = '\t' || c = '\n' || c = '\x0c' || c = '\r'

def separator (c : Char) : Bool := c = ',' || c = '{' || c = '}' || c = '[' || c = ']'

/-- A real number: digits around a point, of which one side may lack, and perhaps an exponent. -/
def real : Reader Binary64 := do
  let negative ← sign
  let whole ← takeWhile Char.isDigit
  expect ['.']
  let fraction ← takeWhile Char.isDigit
  if whole.isEmpty && fraction.isEmpty then failure
  let power ← optional do
    discard (next? fun c => c = 'e' || c = 'E')
    let negative ← sign
    let ds ← takeWhile Char.isDigit
    if ds.isEmpty then failure
    let n := natOfDigits ds
    return if negative then -(n : Int) else n
  return .ofDecimal negative ⟨natOfDigits (whole ++ fraction), power.getD 0 - fraction.length⟩

def whole : Reader Int := do
  let negative ← sign
  let ds ← takeWhile Char.isDigit
  if ds.isEmpty then failure
  return if negative then -(natOfDigits ds : Int) else natOfDigits ds

/-- A value without brackets or quotes: a number if it reads as one, or else text. -/
def bare (s : List Char) : Setting :=
  match all real s with
  | some x => .real x
  | none =>
    match all whole s with
    | some n =>
      if 0 ≤ n ∧ n < 0x10000000000000000 ∧ s.head? ≠ some '-' then .unsigned n.toNat
      else if -0x8000000000000000 ≤ n ∧ n < 0x8000000000000000 then .signed n
      else .text (String.ofList s)
    | none => .text (String.ofList s)

def cut (count : Nat) : List Char → List Char
  | [] => []
  | c :: rest => if c.utf8Size ≤ count then c :: cut (count - c.utf8Size) rest else []

/-- The rest of a quoted text, with escapes. Of what stands before the first escape only as many
bytes count as it has characters. -/
def quoted : Reader (List Char) := do
  let s ← get
  let before := s.takeWhile fun c => c ≠ '"' && c ≠ '\\'
  let cs ← Toml.quoted s.length
  if s[before.length]? = some '\\' then return cut before.length before ++ cs.drop before.length
  return cs

def name : Reader String := do
  skipWhile gap
  let s ←
    if ← accept ['"'] then quoted
    else
      let s ← takeWhile fun c => c.isAlphanum || c = '_' || c = '-'
      if s.isEmpty then failure
      pure s
  skipWhile gap
  return String.ofList s

mutual

def value : Nat → Reader Setting
  | 0 => failure
  | steps + 1 => do
    skipWhile gap
    let v ← do
      if ← accept ['t', 'r', 'u', 'e'] then pure (.bool true)
      else if ← accept ['f', 'a', 'l', 's', 'e'] then pure (.bool false)
      else if ← accept ['['] then .list <$> items steps
      else if ← accept ['{'] then .table <$> entries steps
      else if ← accept ['"'] then (.text ∘ String.ofList) <$> quoted
      else if ← accept ['\''] then
        let c ← next? fun _ => true
        expect ['\'']
        pure (.text (String.ofList [c]))
      else pure (bare (trim (← takeWhile fun c => !separator c)))
    skipWhile gap
    return v

def items : Nat → Reader (List Setting)
  | 0 => failure
  | steps + 1 => do
    if ← accept [']'] then return []
    let v ← value steps
    if ← accept [','] then return v :: (← items steps)
    expect [']']
    return [v]

def entries : Nat → Reader (List (String × Setting))
  | 0 => failure
  | steps + 1 => do
    if ← accept ['}'] then return []
    let n ← name
    expect ['=']
    skipWhile gap
    let v ← value steps
    if ← accept [','] then return (n, v) :: (← entries steps)
    expect ['}']
    return [(n, v)]

end

/-- Reads the text of an override. What does not read as a value stands for itself. -/
def read (s : String) : Setting := (all (value (2 * s.length + 1)) s.toList).getD (.text s)

/-- Puts a value under a name whose points stand for nested tables. A name with an empty part names
nothing. -/
def nest (name : String) (v : Setting) : Option (String × Setting) :=
  match name.splitOn "." with
  | [] => none
  | field :: inner =>
    if (field :: inner).any String.isEmpty then none
    else some (field, inner.foldr (fun part v => .table [(part, v)]) v)

/-- The overrides of settings; capital letters in names do not count. -/
def layer (l : List (String × String)) : List (String × Setting) :=
  l.filterMap fun p => nest (String.ofList ((trim p.1.toList).map Char.toLower)) (read p.2)

end RecordLinkage.Override
