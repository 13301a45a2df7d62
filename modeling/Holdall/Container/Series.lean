import Holdall.Container.HashedSet
import Holdall.Sequence.Optional
import Holdall.Sequence.Sorting
import Std.Data.HashSet

namespace Holdall

variable {α β : Type}

structure Series (α : Type) where
  items : List α := []
  deriving BEq

namespace Series

def empty : Series α := {}

def size (s : Series α) : Nat := s.items.length

def push (s : Series α) (x : α) : Series α := ⟨s.items ++ [x]⟩

def extend (s : Series α) (xs : List α) : Series α := ⟨s.items ++ xs⟩

def map (s : Series α) (f : α → β) : Series β := ⟨s.items.map f⟩

def filterM {m : Type → Type} [Monad m] (s : Series α) (keep : α → m Bool) : m (Series α) := do
  return ⟨← s.items.filterM keep⟩

def findM? {m : Type → Type} [Monad m] (s : Series α) (p : α → m Bool) : m (Option α) :=
  s.items.findM? p

def firstD (s : Series α) (default : α) : α := s.items.head?.getD default

def lastD (s : Series α) (default : α) : α := s.items.getLast?.getD default

def getD (s : Series α) (index : Nat) (default : α) : α := s.items[index]?.getD default

def sorted [Ord α] (s : Series α) : Series α := ⟨Sequence.sorted s.items⟩

/-- Marks an item as met, and says whether it was new. -/
def meet [BEq α] [Hashable α] (x : α) : StateM (Std.HashSet α) Bool := do
  let met ← get
  set (met.insert x)
  return !met.contains x

def distinct [BEq α] [Hashable α] (s : Series α) : Series α := ((s.filterM meet).run ∅).1

def toSet [BEq α] (s : Series α) : HashedSet α := .ofList s.items

def join [ToString α] (s : Series α) (separator : String) : String :=
  Sequence.Optional.join (some s.items) separator

instance [Inspect α] : Inspect (Series α) := ⟨fun s => inspect s.items⟩

end Series

end Holdall
