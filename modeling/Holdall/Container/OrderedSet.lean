import Holdall.OrderedMap.Traversal

namespace Holdall

variable {α β : Type} [BEq α] [Hashable α]

structure OrderedSet (α : Type) [BEq α] [Hashable α] where
  entries : OrderedMap α Unit := {}

namespace OrderedSet

def empty : OrderedSet α := {}

def size (s : OrderedSet α) : Nat := s.entries.size

def isEmpty (s : OrderedSet α) : Bool := s.entries.isEmpty

def items (s : OrderedSet α) : List α := s.entries.keys

def contains (s : OrderedSet α) (x : α) : Bool := s.entries.contains x

def first? (s : OrderedSet α) : Option α :=
  s.entries.cursor.next?.map fun ((x, _), _) => x

def last? (s : OrderedSet α) : Option α := s.entries.newest?.map Prod.fst

def insert (s : OrderedSet α) (x : α) : Bool × OrderedSet α :=
  if s.contains x then (false, s) else (true, ⟨(s.entries.insert x ()).2⟩)

def remove (s : OrderedSet α) (x : α) : Bool × OrderedSet α :=
  let (found, entries) := s.entries.remove x
  (found.isSome, ⟨entries⟩)

def popFirst (s : OrderedSet α) : Option α × OrderedSet α :=
  let (entry, entries) := s.entries.popEldest
  (entry.map Prod.fst, ⟨entries⟩)

def clear (s : OrderedSet α) : OrderedSet α := ⟨s.entries.clear⟩

def extend (s : OrderedSet α) (xs : List α) : OrderedSet α := xs.foldl (fun s x => (s.insert x).2) s

def ofList (xs : List α) : OrderedSet α := empty.extend xs

def map [BEq β] [Hashable β] (s : OrderedSet α) (f : α → β) : OrderedSet β := ofList (s.items.map f)

def filterM {m : Type → Type} [Monad m] (s : OrderedSet α) (keep : α → m Bool) :
    m (OrderedSet α) := do
  return ofList (← s.items.filterM keep)

/-- Equal items in the same order. -/
instance : BEq (OrderedSet α) := ⟨fun s t => s.entries == t.entries⟩

instance [Inspect α] : Inspect (OrderedSet α) := ⟨fun s => inspectItems s.items⟩

end OrderedSet

end Holdall
