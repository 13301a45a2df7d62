import Holdall.Container.SortedMap

namespace Holdall

variable {α β : Type} [Ord α]

@[ext]
structure SortedSet (α : Type) [Ord α] where
  table : SortedMap α Unit := {}

namespace SortedSet

def empty : SortedSet α := {}

def size (s : SortedSet α) : Nat := s.table.size

def items (s : SortedSet α) : List α := s.table.keys

def contains (s : SortedSet α) (x : α) : Bool := s.table.contains x

def first? (s : SortedSet α) : Option α := s.table.firstKey?

def last? (s : SortedSet α) : Option α := s.table.lastKey?

def remove (s : SortedSet α) (x : α) : Bool × SortedSet α := (s.contains x, ⟨s.table.erase x⟩)

def range? (s : SortedSet α) (lower upper : Bound α) : Option (List α) :=
  (s.table.range? lower upper).map (·.map Prod.fst)

theorem isSome_range? (s : SortedSet α) {lower upper : Bound α} (h : lower.spans upper = true) :
    (s.range? lower upper).isSome = true := by
  rw [range?, Option.isSome_map]
  exact s.table.isSome_range? h

theorem get_range? (s : SortedSet α) {lower upper : Bound α} (h : lower.spans upper = true) :
    (s.range? lower upper).get (s.isSome_range? h) =
      ((s.table.range? lower upper).get (s.table.isSome_range? h)).map Prod.fst := by
  simp only [range?, Option.get_map]

def floor? (s : SortedSet α) (x : α) : Option α :=
  ((s.range? .unbounded (.included x)).get (s.isSome_range? rfl)).getLast?

def ceiling? (s : SortedSet α) (x : α) : Option α :=
  ((s.range? (.included x) .unbounded).get (s.isSome_range? rfl)).head?

section

variable [Std.TransOrd α]

def put (s : SortedSet α) (x : α) : SortedSet α := ⟨s.table.put x ()⟩

def insert (s : SortedSet α) (x : α) : Bool × SortedSet α := (!s.contains x, s.put x)

def extend (s : SortedSet α) (xs : List α) : SortedSet α := xs.foldl put s

def ofList (xs : List α) : SortedSet α := ⟨.ofList (xs.map fun x => (x, ()))⟩

def head (s : SortedSet α) (upper : α) : SortedSet α :=
  ofList ((s.range? .unbounded (.excluded upper)).get (s.isSome_range? rfl))

def tail (s : SortedSet α) (lower : α) : SortedSet α :=
  ofList ((s.range? (.included lower) .unbounded).get (s.isSome_range? rfl))

/-- The items from `lower` on and below `upper`; none where the bounds are the wrong way round. -/
def between (s : SortedSet α) (lower upper : α) : SortedSet α :=
  if h : compare lower upper = .gt then empty
  else ofList ((s.range? (.included lower) (.excluded upper)).get
    (s.isSome_range? (Bound.spans_excluded_iff.2 h)))

def filterM {m : Type → Type} [Monad m] (s : SortedSet α) (keep : α → m Bool) : m (SortedSet α) := do
  return ofList (← s.items.filterM keep)

end

def map [Ord β] [Std.TransOrd β] (s : SortedSet α) (f : α → β) : SortedSet β :=
  ofList (s.items.map f)

instance [BEq α] : BEq (SortedSet α) := ⟨fun s t => s.items == t.items⟩

/-- Lexicographic comparison of the items. -/
instance : Ord (SortedSet α) := ⟨fun s t => List.compareLex compare s.items t.items⟩

instance [Inspect α] : Inspect (SortedSet α) := ⟨fun s => inspectItems s.items⟩

end SortedSet

end Holdall
