import Holdall.OrderedMap.Traversal

namespace Holdall.Sequence

variable {α K : Type} [BEq K] [Hashable K]

/-- Changes the value of a key, or stores a first one. -/
def amend {V : Type} (m : OrderedMap K V) (k : K) (first : V) (f : V → V) : OrderedMap K V :=
  match m.modify k f with
  | (some _, m) => m
  | (none, m) => (m.insert k first).2

def groupBy (key : α → K) (xs : List α) : OrderedMap K (List α) :=
  xs.foldl (fun groups x => amend groups (key x) [x] (· ++ [x])) .empty

def frequencies (xs : List K) : OrderedMap K Nat :=
  xs.foldl (fun counts x => amend counts x 1 (· + 1)) .empty

end Holdall.Sequence
