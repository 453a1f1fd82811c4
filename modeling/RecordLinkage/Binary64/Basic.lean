import RecordLinkage.Sorted.Key

namespace RecordLinkage

/-- A double-precision floating-point number, as its 64 bits. -/
structure Binary64 where
  bits : BitVec 64
  deriving DecidableEq, Repr

namespace Binary64

/-- The bits below the sign; among numbers of one sign they grow with the absolute value. -/
def magnitude (x : Binary64) : Nat := x.bits.toNat % 0x8000000000000000

def negative (x : Binary64) : Bool := decide (0x8000000000000000 ≤ x.bits.toNat)

def infinityMagnitude : Nat := 0x7ff0000000000000

def ofMagnitude (negative : Bool) (m : Nat) : Binary64 :=
  ⟨BitVec.ofNat 64 (if negative then 0x8000000000000000 + m else m)⟩

def zero : Binary64 := ofMagnitude false 0

def infinity : Binary64 := ofMagnitude false infinityMagnitude

def nan : Binary64 := ofMagnitude false (0x7ff8000000000000)

def isNaN (x : Binary64) : Bool := decide (infinityMagnitude < x.magnitude)

def isFinite (x : Binary64) : Bool := decide (x.magnitude < infinityMagnitude)

def isInfinite (x : Binary64) : Bool := decide (x.magnitude = infinityMagnitude)

/-- How many magnitudes there are between one power of two and the next. -/
def binade : Nat := 0x10000000000000

/-- The size of a finite magnitude in units of `2 ^ -1074`, the least positive number. -/
def unitsOf (m : Nat) : Nat :=
  if m < binade then m else (binade + m % binade) * Nat.pow 2 (m / binade - 1)

def units (x : Binary64) : Nat := unitsOf x.magnitude

def unitsPerOne : Nat := Nat.pow 2 1074

def signedUnits (x : Binary64) : Int := if x.negative then -(x.units : Int) else x.units

/-- The magnitude nearest to `num / den` units: halfway cases go to the even neighbour, and what is
too large becomes infinite. Magnitudes count through all finite numbers, so a carry out of the
significand is a carry into the exponent. -/
def nearest (num den : Nat) : Nat :=
  let shift := (num / den).log2 - 52
  let step := den * Nat.pow 2 shift
  let low := num / step
  let rest := 2 * (num % step)
  let up := step < rest ∨ (step = rest ∧ low % 2 = 1)
  min (shift * binade + if up then low + 1 else low) infinityMagnitude

/-- The number nearest to a signed count of units; an exact zero keeps the given sign. -/
def ofUnits (zeroNegative : Bool) (n : Int) : Binary64 :=
  if n = 0 then ofMagnitude zeroNegative 0 else ofMagnitude (decide (n < 0)) (nearest n.natAbs 1)

def neg (x : Binary64) : Binary64 := ofMagnitude (!x.negative) x.magnitude

/-- Exact sum, then one rounding. -/
def add (x y : Binary64) : Binary64 :=
  if x.isNaN || y.isNaN then nan
  else if x.isInfinite then (if y.isInfinite && x.negative != y.negative then nan else x)
  else if y.isInfinite then y
  else ofUnits (x.negative && y.negative) (x.signedUnits + y.signedUnits)

def sub (x y : Binary64) : Binary64 := add x y.neg

def mul (x y : Binary64) : Binary64 :=
  let sign := x.negative != y.negative
  if x.isNaN || y.isNaN then nan
  else if x.isInfinite || y.isInfinite then
    if x.magnitude = 0 ∨ y.magnitude = 0 then nan else ofMagnitude sign infinityMagnitude
  else ofMagnitude sign (nearest (x.units * y.units) unitsPerOne)

def div (x y : Binary64) : Binary64 :=
  let sign := x.negative != y.negative
  if x.isNaN || y.isNaN then nan
  else if x.isInfinite then (if y.isInfinite then nan else ofMagnitude sign infinityMagnitude)
  else if y.isInfinite then ofMagnitude sign 0
  else if y.magnitude = 0 then
    if x.magnitude = 0 then nan else ofMagnitude sign infinityMagnitude
  else ofMagnitude sign (nearest (x.units * unitsPerOne) y.units)

def ofNat (n : Nat) : Binary64 := ofMagnitude false (nearest (n * unitsPerOne) 1)

def ofInt (n : Int) : Binary64 := ofUnits false (n * unitsPerOne)

def ofRatio (num den : Nat) : Binary64 := ofMagnitude false (nearest (num * unitsPerOne) den)

/-- Numeric comparison goes by this key on everything but NaN; both zeros have key 0. -/
def numericKey (x : Binary64) : Int := if x.negative then -(x.magnitude : Int) else x.magnitude

/-- Numerically less; never true of NaN. -/
def lt (x y : Binary64) : Bool :=
  !x.isNaN && !y.isNaN && decide (x.numericKey < y.numericKey)

/-- Numerically equal: the zeros are equal, and NaN equals nothing. -/
def same (x y : Binary64) : Bool :=
  !x.isNaN && !y.isNaN && decide (x.numericKey = y.numericKey)

/-- The smaller number; NaN gives way, and of two equals the first is taken. -/
def min (x y : Binary64) : Binary64 :=
  if x.isNaN then y else if y.lt x then y else x

def max (x y : Binary64) : Binary64 :=
  if x.isNaN then y else if x.lt y then y else x

/-- The key of the total order on bit patterns, with `-0` below `0` and NaN at both ends. -/
def totalKey (x : Binary64) : Int := if x.negative then -1 - (x.magnitude : Int) else x.magnitude

theorem totalKey_injective (x y : Binary64) (h : x.totalKey = y.totalKey) : x = y := by
  obtain ⟨b⟩ := x
  obtain ⟨c⟩ := y
  have hb := b.isLt
  have hc := c.isLt
  simp only [totalKey, negative, magnitude, decide_eq_true_eq] at h
  congr 1
  apply BitVec.eq_of_toNat_eq
  split at h <;> split at h <;> omega

instance : SortKey Binary64 := .byKey totalKey totalKey_injective

end Binary64

end RecordLinkage
