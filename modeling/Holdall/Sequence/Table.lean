import Holdall.Container.HashedMap
import Holdall.Container.SortedMap
import Holdall.OrderedMap.Traversal
import Holdall.Sequence.Sorting
import Holdall.Error

namespace Holdall.Sequence

variable {K V : Type}

/-- Pairs each key with the value at its place. -/
def paired (ks : List K) (vs : List V) : Except ArgumentError (List (K × V)) :=
  if ks.length = vs.length then .ok (ks.zip vs) else .error (.lengthMismatch ks.length vs.length)

def hashedTable [BEq K] (ks : List K) (vs : List V) : Except ArgumentError (HashedMap K V) := do
  return .ofList (← paired ks vs)

def orderedTable [BEq K] [Hashable K] (ks : List K) (vs : List V) :
    Except ArgumentError (OrderedMap K V) := do
  return .ofList (← paired ks vs)

def sortedTable [Ord K] [Std.TransOrd K] (ks : List K) (vs : List V) :
    Except ArgumentError (SortedMap K V) := do
  return .ofList (← paired ks vs)

def lookup [BEq K] (table : Option (HashedMap K V)) (k : K) (default : V) : V :=
  (table.bind (·.get? k)).getD default

/-- The entries in ascending order of their values, and those of one value in order of their keys. -/
def sortByValue [BEq K] [Hashable K] [Ord K] [Ord V] (table : SortedMap K V) : OrderedMap K V :=
  .ofList (sortedByKey Prod.snd table.entries)

end Holdall.Sequence
