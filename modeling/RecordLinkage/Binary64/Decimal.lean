import RecordLinkage.Binary64.Basic

namespace RecordLinkage

structure Decimal where
  digits : Nat
  exponent : Int
  deriving DecidableEq, Repr

namespace Binary64

/-- A finite number lies between the halfway points to its two neighbours, which belong to it when
its magnitude is even. The decimals that read back to it are those in between. -/
def readsBack (m : Nat) (d : Decimal) : Bool :=
  let value := 2 * d.digits * Nat.pow 10 d.exponent.toNat * unitsPerOne
  let scale := Nat.pow 10 (-d.exponent).toNat
  let low := (unitsOf (m - 1) + unitsOf m) * scale
  let high := (unitsOf m + unitsOf (m + 1)) * scale
  if m % 2 = 0 then decide (low ≤ value ∧ value ≤ high) else decide (low < value ∧ value < high)

/-- The number of digits before the decimal point; not positive for numbers below a tenth. -/
def scaleOf (m : Nat) : Int :=
  let whole := unitsOf m / unitsPerOne
  if whole = 0 then
    match (List.range 330).find? fun j => unitsPerOne ≤ unitsOf m * Nat.pow 10 (j + 1) with
    | some j => -(j : Int)
    | none => -330
  else (Nat.toDigits 10 whole).length

def gridBelow (m : Nat) (exponent : Int) : Decimal :=
  ⟨unitsOf m * Nat.pow 10 (-exponent).toNat / (unitsPerOne * Nat.pow 10 exponent.toNat), exponent⟩

/-- On one grid: of the two neighbours of the value that read back the nearer, the upper on a tie. -/
def onGrid (m : Nat) (exponent : Int) : Option Decimal :=
  let low := gridBelow m exponent
  let high : Decimal := ⟨low.digits + 1, exponent⟩
  let twice := 2 * unitsOf m * Nat.pow 10 (-exponent).toNat
  let middle := (low.digits + high.digits) * unitsPerOne * Nat.pow 10 exponent.toNat
  match readsBack m low, readsBack m high with
  | true, true => some (if twice < middle then low else high)
  | true, false => some low
  | false, true => some high
  | false, false => none

/-- The decimal with the fewest digits that reads back to a positive magnitude. -/
def shortest (m : Nat) : Decimal :=
  match (List.range 17).findSome? fun n => onGrid m (scaleOf m - 1 - (n : Nat)) with
  | some d => d
  | none => ⟨unitsOf m * Nat.pow 5 1074, -1074⟩

def trimZeros : List Char → List Char := fun l => (l.reverse.dropWhile (· = '0')).reverse

def positional (digits : List Char) (point : Int) : List Char :=
  if point ≤ 0 then '0' :: '.' :: List.replicate (-point).toNat '0' ++ digits
  else if digits.length ≤ point.toNat then
    digits ++ List.replicate (point.toNat - digits.length) '0'
  else digits.take point.toNat ++ '.' :: digits.drop point.toNat

/-- A positive magnitude in decimal: fewest digits that read back, never an exponent. -/
def magnitudeText (m : Nat) : List Char :=
  let d := shortest m
  let digits := Nat.toDigits 10 d.digits
  positional (trimZeros digits) (digits.length + d.exponent)

def text (x : Binary64) : String :=
  if x.isNaN then "NaN"
  else
    let body :=
      if x.isInfinite then "inf".toList
      else if x.magnitude = 0 then ['0']
      else magnitudeText x.magnitude
    String.ofList (if x.negative then '-' :: body else body)

/-- The nearest number to a signed decimal. Exponents far outside the range are cut short, where
the result is zero or infinite already. -/
def ofDecimal (negative : Bool) (d : Decimal) : Binary64 :=
  let length := (Nat.toDigits 10 d.digits).length
  let m :=
    if d.digits = 0 then 0
    else if 400 < d.exponent then infinityMagnitude
    else if d.exponent + length < -400 then 0
    else if 0 ≤ d.exponent then nearest (d.digits * Nat.pow 10 d.exponent.toNat * unitsPerOne) 1
    else nearest (d.digits * unitsPerOne) (Nat.pow 10 (-d.exponent).toNat)
  ofMagnitude negative m

end Binary64

end RecordLinkage
