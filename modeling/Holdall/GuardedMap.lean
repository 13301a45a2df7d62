import Holdall.BoundedMap.Plan

/-!
A bounded map behind a lock. Each operation holds the lock from its first step to its last, so that
an operation is one step of the map whoever else calls.
-/

namespace Holdall

variable {K V L : Type} [BEq K] [Hashable K]

structure GuardedMap (K V L : Type) [BEq K] [Hashable K] where
  map : BoundedMap K V L

def Plan.buildGuarded (p : Plan) : GuardedMap K V Silent := ⟨p.build {}⟩

namespace GuardedMap

def create (maxSize : Nat) (listener : L) : GuardedMap K V L := ⟨.create maxSize listener⟩

def create? (maxSize : Nat) (listener : L) : Except ConfigError (GuardedMap K V L) := do
  let map ← BoundedMap.create? maxSize listener
  return ⟨map⟩

def locked {R : Type} (g : GuardedMap K V L) (step : BoundedMap K V L → R × BoundedMap K V L) :
    R × GuardedMap K V L :=
  let (r, map) := step g.map
  (r, ⟨map⟩)

def size (g : GuardedMap K V L) : Nat := g.map.size

def isEmpty (g : GuardedMap K V L) : Bool := g.map.isEmpty

def maxSize (g : GuardedMap K V L) : Nat := g.map.maxSize

def stats (g : GuardedMap K V L) : Stats := g.map.stats

def contains (g : GuardedMap K V L) (k : K) : Bool := g.map.contains k

def peek? (g : GuardedMap K V L) (k : K) : Option V := g.map.peek? k

def get (g : GuardedMap K V L) (k : K) : Option V × GuardedMap K V L := g.locked (·.get k)

def remove (g : GuardedMap K V L) (k : K) : Option V × GuardedMap K V L := g.locked (·.remove k)

def clear (g : GuardedMap K V L) : GuardedMap K V L := ⟨g.map.clear⟩

section

variable [Listener L K V]

def insert (g : GuardedMap K V L) (k : K) (v : V) : Option V × GuardedMap K V L :=
  g.locked (·.insert k v)

/-- Reads a key; where it is absent, makes its value and stores it. -/
def getOrInsertM {m : Type → Type} [Monad m] (g : GuardedMap K V L) (k : K) (make : m V) :
    m (V × GuardedMap K V L) :=
  match g.map.get k with
  | (some v, map) => pure (v, ⟨map⟩)
  | (none, map) => do
    let v ← make
    return (v, ⟨(map.insert k v).2⟩)

end

/-- What is seen of a map that another operation holds. -/
def inspectHeld : String := "ConcurrentLruMap \x7b <locked> \x7d"

instance [Inspect K] [Inspect V] : Inspect (GuardedMap K V L) :=
  ⟨fun g => Text.record "ConcurrentLruMap" [("map", inspect g.map)]⟩

end GuardedMap

end Holdall
