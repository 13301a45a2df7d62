import Holdall.Error

namespace Holdall.Sequence

variable {α β : Type}

abbrev Optional (α : Type) := Option (List α)

namespace Optional

def items (xs : Optional α) : List α := xs.getD []

def size (xs : Optional α) : Nat := xs.items.length

def isEmpty (xs : Optional α) : Bool := xs.size == 0

def resized (xs : Optional α) (n : Nat) (fill : α) : List α :=
  xs.items.take n ++ List.replicate (n - xs.size) fill

/-- The items from index `lower` on and before index `upper`. -/
def slice (xs : Optional α) (lower upper : Nat) : Except ArgumentError (List α) :=
  if upper < lower ∨ xs.size < upper then .error (.invalidRange lower upper xs.size)
  else .ok ((xs.items.take upper).drop lower)

def append (xs ys : Optional α) : List α := xs.items ++ ys.items

def reversed (xs : Optional α) : List α := xs.items.reverse

def first? (xs : Optional α) : Option α := xs.items.head?

def last? (xs : Optional α) : Option α := xs.items.getLast?

def get? (xs : Optional α) (index : Nat) : Option α := xs.items[index]?

def element (xs : Optional α) (index : Nat) : Except ArgumentError α :=
  match xs.get? index with
  | some x => .ok x
  | none => .error (.indexOutOfBounds index xs.size)

def firstD (xs : Optional α) (default : α) : α := xs.first?.getD default

def lastD (xs : Optional α) (default : α) : α := xs.last?.getD default

def getD (xs : Optional α) (index : Nat) (default : α) : α := (xs.get? index).getD default

def indexOf? [BEq α] (xs : Optional α) (x : α) : Option Nat := xs.items.findIdx? (· == x)

def lastIndexOf? [BEq α] (xs : Optional α) (x : α) : Option Nat :=
  (xs.items.reverse.findIdx? (· == x)).map (xs.size - 1 - ·)

def contains [BEq α] (xs : Optional α) (x : α) : Bool := (xs.indexOf? x).isSome

def equals [BEq α] (xs ys : Optional α) : Bool :=
  match xs, ys with
  | none, none => true
  | some xs, some ys => xs == ys
  | _, _ => false

def map (xs : Optional α) (f : α → β) : List β := xs.items.map f

section

variable {m : Type → Type} [Monad m]

def filterM (xs : Optional α) (p : α → m Bool) : m (List α) := xs.items.filterM p

def findM? (xs : Optional α) (p : α → m Bool) : m (Option α) := xs.items.findM? p

def anyM (xs : Optional α) (p : α → m Bool) : m Bool := xs.items.anyM p

def allM (xs : Optional α) (p : α → m Bool) : m Bool := xs.items.allM p

def countM (xs : Optional α) (p : α → m Bool) : m Nat := do return (← xs.filterM p).length

end

def join [ToString α] (xs : Optional α) (separator : String) : String :=
  separator.intercalate (xs.items.map toString)

end Optional

end Holdall.Sequence
