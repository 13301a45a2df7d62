import Holdall.Slot.Chain
import Std.Data.HashMap

/-!
A map whose entries stand in an order, from the eldest to the newest. In order of insertion an entry
keeps its place; in order of access each use moves it to the end. A hash index names the node of a
key, and the nodes hold the entries themselves. Keys may be equal without being identical: the key
stored first stays.
-/

namespace Holdall

variable {K V : Type} [BEq K] [Hashable K]

inductive EntryOrder
  | insertion
  | access
  deriving DecidableEq, Repr

structure OrderedMap (K V : Type) [BEq K] [Hashable K] where
  index : Std.HashMap K Slot.Id := ∅
  entries : Slot.Chain (K × V) := {}
  order : EntryOrder := .insertion

namespace OrderedMap

def empty (order : EntryOrder := .insertion) : OrderedMap K V := { order }

def size (m : OrderedMap K V) : Nat := m.index.size

def isEmpty (m : OrderedMap K V) : Bool := m.index.isEmpty

def toList (m : OrderedMap K V) : List (K × V) := m.entries.toList

def keys (m : OrderedMap K V) : List K := m.toList.map Prod.fst

def values (m : OrderedMap K V) : List V := m.toList.map Prod.snd

def contains (m : OrderedMap K V) (k : K) : Bool := m.index.contains k

/-- The value of a key, without counting as a use. -/
def peek? (m : OrderedMap K V) (k : K) : Option V := do
  let id ← m.index[k]?
  let (_, v) ← m.entries.get? id
  return v

/-- Makes the entry at `id` the newest where entries stand in order of access. -/
def use (m : OrderedMap K V) (id : Slot.Id) : OrderedMap K V :=
  match m.order with
  | .insertion => m
  | .access => { m with entries := (m.entries.moveToBack id).2 }

def setValue (m : OrderedMap K V) (id : Slot.Id) (f : V → V) : OrderedMap K V :=
  { m with entries := m.entries.modify id fun (k, v) => (k, f v) }

def insert (m : OrderedMap K V) (k : K) (v : V) : Option V × OrderedMap K V :=
  match m.index[k]? with
  | some id => ((m.entries.get? id).map Prod.snd, (m.setValue id fun _ => v).use id)
  | none =>
    let (id, entries) := m.entries.pushBack (k, v)
    (none, { m with entries, index := m.index.insert k id })

def modify (m : OrderedMap K V) (k : K) (f : V → V) : Option V × OrderedMap K V :=
  match m.index[k]? with
  | some id => ((m.entries.get? id).map Prod.snd, (m.use id).setValue id f)
  | none => (none, m)

def get (m : OrderedMap K V) (k : K) : Option V × OrderedMap K V :=
  match m.index[k]? with
  | some id => ((m.entries.get? id).map Prod.snd, m.use id)
  | none => (none, m)

def touch (m : OrderedMap K V) (k : K) : Bool × OrderedMap K V :=
  match m.index[k]? with
  | some id => (true, m.use id)
  | none => (false, m)

def removeEntry (m : OrderedMap K V) (k : K) : Option (K × V) × OrderedMap K V :=
  match m.index[k]? with
  | some id =>
    let (entry, entries) := m.entries.remove id
    (entry, { m with entries, index := m.index.erase k })
  | none => (none, m)

def remove (m : OrderedMap K V) (k : K) : Option V × OrderedMap K V :=
  let (entry, rest) := m.removeEntry k
  (entry.map Prod.snd, rest)

def eldest? (m : OrderedMap K V) : Option (K × V) := m.entries.first?

def newest? (m : OrderedMap K V) : Option (K × V) := m.entries.last?

/-- Gives up the index entry of a node that has left the chain. -/
def forget (m : OrderedMap K V) :
    Option (K × V) × Slot.Chain (K × V) → Option (K × V) × OrderedMap K V
  | (none, entries) => (none, { m with entries })
  | (some (k, v), entries) => (some (k, v), { m with entries, index := m.index.erase k })

def popEldest (m : OrderedMap K V) : Option (K × V) × OrderedMap K V := m.forget m.entries.popFront

def popNewest (m : OrderedMap K V) : Option (K × V) × OrderedMap K V := m.forget m.entries.popBack

def clear (m : OrderedMap K V) : OrderedMap K V := empty m.order

def extend (m : OrderedMap K V) (pairs : List (K × V)) : OrderedMap K V :=
  pairs.foldl (fun m (k, v) => (m.insert k v).2) m

def ofList (pairs : List (K × V)) : OrderedMap K V := empty.extend pairs

/-- What a visitor decides about the entry at `id`: its new value, and whether it stays. -/
def settle (m : OrderedMap K V) (id : Slot.Id) (v : V) (stays : Bool) : OrderedMap K V :=
  let written := m.setValue id fun _ => v
  if stays then written else (written.forget (written.entries.remove id)).2

def retainAtM {m : Type → Type} [Monad m] (visit : K → V → m (V × Bool)) :
    List Slot.Id → OrderedMap K V → m (OrderedMap K V)
  | [], map => pure map
  | id :: ids, map =>
    match map.entries.get? id with
    | none => retainAtM visit ids map
    | some (k, v) => do
      let (v, stays) ← visit k v
      retainAtM visit ids (map.settle id v stays)

/-- Visits each entry once, from the eldest to the newest. The visitor may change the value and says
whether the entry stays; no visit counts as a use. -/
def retainM {m : Type → Type} [Monad m] (map : OrderedMap K V) (visit : K → V → m (V × Bool)) :
    m (OrderedMap K V) :=
  retainAtM visit map.entries.ids map

/-- Equal entries in the same order; how they came into that order does not matter. -/
instance [BEq V] : BEq (OrderedMap K V) where
  beq m n := m.entries.size == n.entries.size && m.toList == n.toList

instance [Inspect K] [Inspect V] : Inspect (OrderedMap K V) := ⟨fun m => inspectEntries m.toList⟩

end OrderedMap

end Holdall
