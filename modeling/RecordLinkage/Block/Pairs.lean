import RecordLinkage.Key
import RecordLinkage.Sorted.Map

namespace RecordLinkage

def counterMax : Nat := 0xffffffffffffffff

/-- The number of unordered pairs among `n` entities, pairs of one entity with itself included. The
even factor is halved before the product, which stops at the largest number a counter holds. -/
def pairCount (n : Nat) : Nat :=
  min (if n % 2 = 0 then n / 2 * (n + 1) else n * (n / 2 + 1)) counterMax

def pairsOf {α : Type} : List α → List (α × α)
  | [] => []
  | a :: rest => (a, a) :: rest.map (fun b => (a, b)) ++ pairsOf rest

/-- Every unordered pair of a block once, in ascending order. -/
def candidatePairs (entities : SortedSet EntityKey) : List (EntityKey × EntityKey) :=
  pairsOf entities.toList

end RecordLinkage
