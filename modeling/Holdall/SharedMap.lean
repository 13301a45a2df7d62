import Holdall.BoundedMap.Plan
import Holdall.Handle

/-!
A bounded map of shared values. Each value lives in a cell, and all handles on one cell hold one
value: those in the map and those that somebody outside keeps. An entry is referenced while its cell
has a second handle anywhere. Reclaiming drops entries that are not referenced, the eldest first.
-/

namespace Holdall

variable {K V L : Type} [BEq K] [Hashable K]

structure SharedMap (K V L : Type) [BEq K] [Hashable K] where
  bounded : BoundedMap K (Handle V) L

def Plan.buildShared (p : Plan) : SharedMap K V Silent := ⟨p.build {}⟩

def Plan.buildShared? (p : Plan) : Except ConfigError (SharedMap K V Silent) := do
  p.validate
  return p.buildShared

namespace SharedMap

def create (maxSize : Nat) (listener : L) : SharedMap K V L := ⟨.create maxSize listener⟩

def create? (maxSize : Nat) (listener : L) : Except ConfigError (SharedMap K V L) := do
  let bounded ← BoundedMap.create? maxSize listener
  return ⟨bounded⟩

def size (m : SharedMap K V L) : Nat := m.bounded.size

def isEmpty (m : SharedMap K V L) : Bool := m.bounded.isEmpty

def maxSize (m : SharedMap K V L) : Nat := m.bounded.maxSize

def listener (m : SharedMap K V L) : L := m.bounded.listener

def stats (m : SharedMap K V L) : Stats := m.bounded.stats

def handles (m : SharedMap K V L) : List (K × Handle V) := m.bounded.toList

def toList (m : SharedMap K V L) : List (K × V) := m.handles.map fun (k, h) => (k, h.value)

def cursor (m : SharedMap K V L) : OrderedMap.Cursor K (Handle V) := m.bounded.cursor

def contains (m : SharedMap K V L) (k : K) : Bool := m.bounded.contains k

def peek? (m : SharedMap K V L) (k : K) : Option V := (m.bounded.peek? k).map Handle.value

def get (m : SharedMap K V L) (k : K) : Option (Handle V) × SharedMap K V L :=
  let (h, bounded) := m.bounded.get k
  (h, ⟨bounded⟩)

def remove (m : SharedMap K V L) (k : K) : Option (Handle V) × SharedMap K V L :=
  let (h, bounded) := m.bounded.remove k
  (h, ⟨bounded⟩)

def clear (m : SharedMap K V L) : SharedMap K V L := ⟨m.bounded.clear⟩

/-- How many handles there are on a cell: in the map, and among those kept outside. -/
def holders (m : SharedMap K V L) (outside : List (Handle V)) (cell : Nat) : Nat :=
  m.handles.countP (·.2.cell == cell) + outside.countP (·.cell == cell)

/-- Whether the value of a key has a handle besides the one under that key. -/
def isReferenced (m : SharedMap K V L) (outside : List (Handle V)) (k : K) : Bool :=
  match m.bounded.peek? k with
  | some h => m.holders outside h.cell > 1
  | none => false

section

variable [Listener L K (Handle V)]

def insertHandle (m : SharedMap K V L) (k : K) (h : Handle V) : Option (Handle V) × SharedMap K V L :=
  let (previous, bounded) := m.bounded.insert k h
  (previous, ⟨bounded⟩)

def insert (m : SharedMap K V L) (cells : CellSupply) (k : K) (v : V) :
    Option (Handle V) × SharedMap K V L × CellSupply :=
  let (h, cells) := cells.share v
  let (previous, m) := m.insertHandle k h
  (previous, m, cells)

def setMaxSize (m : SharedMap K V L) (maxSize : Nat) : Except ConfigError Unit × SharedMap K V L :=
  let (r, bounded) := m.bounded.setMaxSize maxSize
  (r, ⟨bounded⟩)

def dropKeys (m : SharedMap K V L) : List K → Nat × SharedMap K V L
  | [] => (0, m)
  | k :: ks =>
    let (dropped, bounded) := m.bounded.dropKey k
    let (n, m) := dropKeys ⟨bounded⟩ ks
    (if dropped then n + 1 else n, m)

structure Reclaimed (K V L : Type) [BEq K] [Hashable K] where
  count : Nat
  map : SharedMap K V L
  lines : List Log.Line

/-- The eldest keys without a second handle, as many as exceed the target. -/
def reclaimable (m : SharedMap K V L) (outside : List (Handle V)) (target : Nat) : List K :=
  ((m.handles.filter fun (_, h) => m.holders outside h.cell == 1).map Prod.fst).take
    (m.size - target)

/-- Drops entries without a second handle until `target` entries are left or all of them are gone. -/
def reclaimTo (m : SharedMap K V L) (outside : List (Handle V)) (target : Nat) :
    Reclaimed K V L :=
  if m.size - target = 0 then ⟨0, m, []⟩ else
    let (count, rest) := m.dropKeys (m.reclaimable outside target)
    let lines := if count > 0 then
      [.debug s!"reclaimed {count} unreferenced entries ({rest.size} remain)"] else []
    ⟨count, rest, lines⟩

def reclaim (m : SharedMap K V L) (outside : List (Handle V)) : Reclaimed K V L :=
  m.reclaimTo outside 0

end

instance [Inspect K] [Inspect V] : Inspect (SharedMap K V L) :=
  ⟨fun m => Text.record "SoftLruMap" [("inner", inspect m.bounded)]⟩

end SharedMap

end Holdall
