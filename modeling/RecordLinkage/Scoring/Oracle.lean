import RecordLinkage.Scoring.Features

namespace RecordLinkage

abbrev Oracle (ω : Type) := Features ω → Outcome (ScoringError ω) ω

namespace Oracle

/-- One column of the features. An oracle that reads a missing column crashes. -/
def column {ε : Type} (i : Nat) (rows : Features Binary64) : Outcome ε (List Binary64) :=
  match rows.mapM fun r => r[i]? with
  | some c => .ok c
  | none => .crash

def misses {ε : Type} (rows : Features Binary64) : Outcome ε Nat :=
  return (← column 0 rows).countP fun x => x.same .zero

/-- The part of rows without a match, 1 if there is no row. -/
def mismatchRate : Oracle Binary64 := fun rows => do
  if rows.isEmpty then return .ofNat 1
  else return .div (.ofNat (← misses rows)) (.ofNat rows.length)

def mismatchCount : Oracle Binary64 := fun rows =>
  return .mul (.ofNat (← misses rows)) (.ofDecimal false ⟨1, -1⟩)

def jaccard : Oracle Binary64 := fun rows => do
  let distances := (← column 1 rows).map fun x => Binary64.sub (.ofNat 1) x
  return .div (distances.foldl Binary64.add .zero) (.ofNat 2)

def firstRow : Oracle Binary64 := fun rows => do
  match ← column 0 (rows.take 1) with
  | [] => .error (.unavailable "no features")
  | x :: _ => return .sub (.ofNat 1) x

def constant {ω : Type} (w : ω) : Oracle ω := fun _ => .ok w

def refusing {ω : Type} (cause : ScoringError ω) : Oracle ω := fun _ => .error cause

/-- The number of rows without a match; where there is none the oracle ends as given. -/
def unlessMatch (ending : Outcome (ScoringError Binary64) Binary64) : Oracle Binary64 := fun rows => do
  let n ← misses rows
  if n = 0 then ending else return .ofNat n

end Oracle

end RecordLinkage
