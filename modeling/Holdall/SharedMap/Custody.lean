import Holdall.Sequence.Sorting
import Holdall.SharedMap

namespace Holdall

variable {K V L : Type} [BEq K] [Hashable K]

structure Custody (K V L : Type) [BEq K] [Hashable K] where
  map : SharedMap K V L
  cells : CellSupply := {}
  kept : List (String × Handle V) := []
  lines : List Log.Line := []

namespace Custody

def outside (c : Custody K V L) : List (Handle V) := c.kept.map Prod.snd

def held (c : Custody K V L) : List (String × V) :=
  Sequence.sortedByKey Prod.fst (c.kept.map fun (name, h) => (name, h.value))

def kept? (c : Custody K V L) (name : String) : Option (Handle V) :=
  (c.kept.find? (·.1 == name)).map Prod.snd

def drop (c : Custody K V L) (name : String) : Bool × Custody K V L :=
  ((c.kept? name).isSome, { c with kept := c.kept.filter (·.1 != name) })

def keep (c : Custody K V L) (name : String) (h : Handle V) : Custody K V L :=
  { c with kept := (c.drop name).2.kept ++ [(name, h)] }

/-- Takes what the map handed out, and keeps it if there is a name for it. -/
def take (c : Custody K V L) (name : Option String) (h : Option (Handle V)) :
    Option V × Custody K V L :=
  (h.map Handle.value, match name, h with
    | some name, some h => c.keep name h
    | _, _ => c)

/-- Keeps a value in a new cell, which the map does not have. -/
def share (c : Custody K V L) (name : String) (v : V) : Custody K V L :=
  let (h, cells) := c.cells.share v
  { c with cells }.keep name h

def get (c : Custody K V L) (name : Option String) (k : K) : Option V × Custody K V L :=
  let (h, map) := c.map.get k
  { c with map }.take name h

def remove (c : Custody K V L) (name : Option String) (k : K) : Option V × Custody K V L :=
  let (h, map) := c.map.remove k
  { c with map }.take name h

def clear (c : Custody K V L) : Custody K V L := { c with map := c.map.clear }

def isReferenced (c : Custody K V L) (k : K) : Bool := c.map.isReferenced c.outside k

section

variable [Listener L K (Handle V)]

def insert (c : Custody K V L) (name : Option String) (k : K) (v : V) : Option V × Custody K V L :=
  let (previous, map, cells) := c.map.insert c.cells k v
  { c with map, cells }.take name previous

def insertKept (c : Custody K V L) (name : String) (k : K) : Option V × Custody K V L :=
  match c.kept? name with
  | none => (none, c)
  | some h =>
    let (previous, map) := c.map.insertHandle k h
    (previous.map Handle.value, { c with map })

def setMaxSize (c : Custody K V L) (maxSize : Nat) : Except ConfigError Unit × Custody K V L :=
  let (r, map) := c.map.setMaxSize maxSize
  (r, { c with map })

def settle (c : Custody K V L) (r : SharedMap.Reclaimed K V L) : Nat × Custody K V L :=
  (r.count, { c with map := r.map, lines := c.lines ++ r.lines })

def reclaimTo (c : Custody K V L) (target : Nat) : Nat × Custody K V L :=
  c.settle (c.map.reclaimTo c.outside target)

def reclaim (c : Custody K V L) : Nat × Custody K V L := c.settle (c.map.reclaim c.outside)

end

end Custody

end Holdall
