import Holdall.Container.HashedMap
import Holdall.Sequence.Sorting

namespace Holdall

variable {α β : Type} [BEq α]

structure HashedSet (α : Type) [BEq α] where
  table : HashedMap α Unit := {}

namespace HashedSet

def empty : HashedSet α := {}

def size (s : HashedSet α) : Nat := s.table.size

def items (s : HashedSet α) : List α := s.table.keys

def contains (s : HashedSet α) (x : α) : Bool := s.table.contains x

def put (s : HashedSet α) (x : α) : HashedSet α := ⟨s.table.put x ()⟩

def insert (s : HashedSet α) (x : α) : Bool × HashedSet α := (!s.contains x, s.put x)

def remove (s : HashedSet α) (x : α) : Bool × HashedSet α := (s.contains x, ⟨s.table.erase x⟩)

def extend (s : HashedSet α) (xs : List α) : HashedSet α := xs.foldl put s

def ofList (xs : List α) : HashedSet α := empty.extend xs

def map [BEq β] (s : HashedSet α) (f : α → β) : HashedSet β := ofList (s.items.map f)

def filterM {m : Type → Type} [Monad m] (s : HashedSet α) (keep : α → m Bool) : m (HashedSet α) := do
  return ofList (← s.items.filterM keep)

def findM? {m : Type → Type} [Monad m] (s : HashedSet α) (p : α → m Bool) : m (Option α) :=
  s.items.findM? p

/-- The items of `s` that are not in `t`. -/
def outside (s t : HashedSet α) : List α := s.items.filter (!t.contains ·)

def union (s t : HashedSet α) : HashedSet α :=
  if t.size ≤ s.size then ofList (s.items ++ t.outside s) else ofList (t.items ++ s.outside t)

def intersection (s t : HashedSet α) : HashedSet α :=
  if s.size ≤ t.size then ofList (s.items.filter t.contains) else ofList (t.items.filter s.contains)

def difference (s t : HashedSet α) : HashedSet α := ofList (s.outside t)

def sorted [Ord α] (s : HashedSet α) : List α := Sequence.sorted s.items

instance : BEq (HashedSet α) where
  beq s t := s.size == t.size && s.items.all t.contains

instance [Inspect α] : Inspect (HashedSet α) := ⟨fun s => inspectItems s.items⟩

end HashedSet

end Holdall
