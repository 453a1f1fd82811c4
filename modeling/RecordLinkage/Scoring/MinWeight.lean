import RecordLinkage.Weight

namespace RecordLinkage

/-- The least weight seen so far; `none` stands for infinity, above which nothing counts. -/
structure MinWeight (ω : Type) where
  least : Option ω
  deriving DecidableEq, Repr

namespace MinWeight

variable {ω : Type} [Weight ω]

def empty : MinWeight ω := ⟨none⟩

/-- Numbers below infinity: the finite ones and negative infinity, but not NaN. -/
def countable (w : ω) : Bool := Weight.finite w || Weight.lt w Weight.zero

/-- Takes a weight into account. Of numerically equal weights the first is kept. -/
def observe (m : MinWeight ω) (w : ω) : MinWeight ω :=
  match m.least with
  | none => if countable w then ⟨some w⟩ else m
  | some v => if Weight.lt w v then ⟨some w⟩ else m

def get? (m : MinWeight ω) : Option ω := m.least.filter Weight.finite

def combine (m other : MinWeight ω) : MinWeight ω :=
  match other.get? with
  | some w => m.observe w
  | none => m

end MinWeight

end RecordLinkage
