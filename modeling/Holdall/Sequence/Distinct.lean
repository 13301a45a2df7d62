import Holdall.Container.HashedSet
import Std.Data.HashSet

namespace Holdall.Sequence

variable {α : Type} [BEq α] [Hashable α]

/-- The items that are new after those in `seen`. -/
def fresh (seen : Std.HashSet α) : List α → List α
  | [] => []
  | x :: xs => if seen.contains x then fresh seen xs else x :: fresh (seen.insert x) xs

def distinct (xs : List α) : List α := fresh ∅ xs

def union (xs ys : List α) : List α := fresh ∅ (xs ++ ys)

def intersection (xs ys : List α) : List α :=
  let other := Std.HashSet.ofList ys
  fresh ∅ (xs.filter (other.contains ·))

def difference (xs ys : List α) : List α :=
  let other := Std.HashSet.ofList ys
  fresh ∅ (xs.filter (!other.contains ·))

/-- The items of one sequence only, those of the first in front. -/
def symmetricDifference (xs ys : List α) : List α :=
  let left := Std.HashSet.ofList xs
  let right := Std.HashSet.ofList ys
  fresh ∅ (xs.filter (!right.contains ·) ++ ys.filter (!left.contains ·))

def isDisjoint (xs ys : List α) : Bool :=
  let left := Std.HashSet.ofList xs
  !ys.any (left.contains ·)

omit [Hashable α]

def containsAny (set : HashedSet α) (xs : List α) : Bool := xs.any (set.contains ·)

def containsAll (set : HashedSet α) (xs : List α) : Bool := xs.all (set.contains ·)

end Holdall.Sequence
