import Holdall.Text.Inspect

namespace Holdall

variable {α : Type}

structure SnapshotList (α : Type) where
  items : List α := []
  deriving BEq

namespace SnapshotList

def empty : SnapshotList α := {}

def ofList (xs : List α) : SnapshotList α := ⟨xs⟩

def size (l : SnapshotList α) : Nat := l.items.length

def isEmpty (l : SnapshotList α) : Bool := l.items.isEmpty

def snapshot (l : SnapshotList α) : List α := l.items

def contains [BEq α] (l : SnapshotList α) (x : α) : Bool := l.items.any (· == x)

def push (l : SnapshotList α) (x : α) : SnapshotList α := ⟨l.items ++ [x]⟩

def extend (l : SnapshotList α) (xs : List α) : SnapshotList α := ⟨l.items ++ xs⟩

/-- Removes the items that match, and says how many. A first pass only finds out whether there is one,
so that the list need not be written at all; where there is one, a second pass asks about every item. -/
def removeWhereM {m : Type → Type} [Monad m] (l : SnapshotList α) (p : α → m Bool) :
    m (Nat × SnapshotList α) := do
  if ← l.items.anyM p then
    let kept ← l.items.filterM fun x => do return !(← p x)
    return (l.size - kept.length, ⟨kept⟩)
  else return (0, l)

instance [Inspect α] : Inspect (SnapshotList α) := ⟨fun l => inspect l.items⟩

end SnapshotList

end Holdall
