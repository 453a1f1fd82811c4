import RecordLinkage.Binary64.Decimal

namespace RecordLinkage

/-- What the library needs of the numbers that weigh edges: a total order for indexes, and the
numeric order, sum and extremes that clustering computes with. -/
class Weight (ω : Type) extends SortKey ω where
  zero : ω
  add : ω → ω → ω
  min : ω → ω → ω
  max : ω → ω → ω
  /-- The numeric order, which may hold values equal that `compare` tells apart. -/
  lt : ω → ω → Bool
  finite : ω → Bool
  text : ω → String

namespace Weight

variable {ω : Type} [Weight ω]

/-- Weights that a graph holds, and biases: finite and not negative. -/
def storable (w : ω) : Bool := finite w && !lt w zero

def bounding (t : ω) : Bool := finite t && lt zero t

instance : Weight Binary64 where
  zero := .zero
  add := .add
  min := .min
  max := .max
  lt := Binary64.lt
  finite := Binary64.isFinite
  text := Binary64.text

end Weight

end RecordLinkage
