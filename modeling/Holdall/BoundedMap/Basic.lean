import Holdall.BoundedMap.Listener
import Holdall.OrderedMap.Traversal
import Holdall.Error

/-!
An ordered map that holds at most `maxSize` entries. Whenever it holds more, it drops the eldest ones
and tells its listener. It keeps a tally of reads that found a key or missed it, of insertions and
replacements, and of dropped entries; removals that were asked for are not counted. The counters of the
tally, and those of listeners, have no limit here: they are those of 64 bits as long as fewer than 2^64
calls are made.
-/

namespace Holdall

variable {K V L : Type} [BEq K] [Hashable K] [Listener L K V]

structure Tally where
  hits : Nat := 0
  misses : Nat := 0
  inserts : Nat := 0
  updates : Nat := 0
  evictions : Nat := 0
  deriving DecidableEq, Repr

structure Stats extends Tally where
  size : Nat
  maxSize : Nat
  deriving DecidableEq, Repr

/-- The share of reads that found their key; zero before any read. -/
def Tally.hitRatio (t : Tally) : Float :=
  if t.hits + t.misses = 0 then 0 else t.hits.toFloat / (t.hits + t.misses).toFloat

structure BoundedMap (K V L : Type) [BEq K] [Hashable K] where
  entries : OrderedMap K V
  maxSize : Nat
  listener : L
  tally : Tally := {}

def checkRoom (maxSize : Nat) : Except ConfigError Unit :=
  if maxSize = 0 then .error .noRoom else .ok ()

namespace BoundedMap

section

omit [Listener L K V]

/-- An empty map of any bound, zero included. -/
def create (maxSize : Nat) (listener : L) (order : EntryOrder := .access) : BoundedMap K V L :=
  { entries := .empty order, maxSize, listener }

def create? (maxSize : Nat) (listener : L) (order : EntryOrder := .access) :
    Except ConfigError (BoundedMap K V L) := do
  checkRoom maxSize
  return create maxSize listener order

def size (m : BoundedMap K V L) : Nat := m.entries.size

def isEmpty (m : BoundedMap K V L) : Bool := m.entries.isEmpty

def order (m : BoundedMap K V L) : EntryOrder := m.entries.order

def toList (m : BoundedMap K V L) : List (K × V) := m.entries.toList

def cursor (m : BoundedMap K V L) : OrderedMap.Cursor K V := m.entries.cursor

def contains (m : BoundedMap K V L) (k : K) : Bool := m.entries.contains k

def peek? (m : BoundedMap K V L) (k : K) : Option V := m.entries.peek? k

def eldest? (m : BoundedMap K V L) : Option (K × V) := m.entries.eldest?

def countInsert (m : BoundedMap K V L) : BoundedMap K V L :=
  { m with tally := { m.tally with inserts := m.tally.inserts + 1 } }

def countUpdate (m : BoundedMap K V L) : BoundedMap K V L :=
  { m with tally := { m.tally with updates := m.tally.updates + 1 } }

def countHit (m : BoundedMap K V L) : BoundedMap K V L :=
  { m with tally := { m.tally with hits := m.tally.hits + 1 } }

def countMiss (m : BoundedMap K V L) : BoundedMap K V L :=
  { m with tally := { m.tally with misses := m.tally.misses + 1 } }

def get (m : BoundedMap K V L) (k : K) : Option V × BoundedMap K V L :=
  if m.contains k then
    let (v, entries) := m.entries.get k
    (v, { m.countHit with entries })
  else (none, m.countMiss)

def modify (m : BoundedMap K V L) (k : K) (f : V → V) : Option V × BoundedMap K V L :=
  if m.contains k then
    let (v, entries) := m.entries.modify k f
    (v, { m.countHit with entries })
  else (none, m.countMiss)

/-- Uses a key without reading it, which is not counted. -/
def touch (m : BoundedMap K V L) (k : K) : Bool × BoundedMap K V L :=
  let (found, entries) := m.entries.touch k
  (found, { m with entries })

def remove (m : BoundedMap K V L) (k : K) : Option V × BoundedMap K V L :=
  let (v, entries) := m.entries.remove k
  (v, { m with entries })

def popEldest (m : BoundedMap K V L) : Option (K × V) × BoundedMap K V L :=
  let (entry, entries) := m.entries.popEldest
  (entry, { m with entries })

def clear (m : BoundedMap K V L) : BoundedMap K V L := { m with entries := m.entries.clear }

/-- How many entries are newer than a key. -/
def recencyRank? (m : BoundedMap K V L) (k : K) : Option Nat := do
  if !m.contains k then none
  let place ← m.entries.keys.findIdx? (· == k)
  return m.size - 1 - place

def stats (m : BoundedMap K V L) : Stats := { m.tally with size := m.size, maxSize := m.maxSize }

def resetStats (m : BoundedMap K V L) : BoundedMap K V L := { m with tally := {} }

end

def notify (m : BoundedMap K V L) (k : K) (v : V) : BoundedMap K V L :=
  { m with
    tally := { m.tally with evictions := m.tally.evictions + 1 }
    listener := Listener.evicted m.listener k v }

def dropEldest : Nat → BoundedMap K V L → BoundedMap K V L
  | 0, m => m
  | n + 1, m =>
    match m.entries.popEldest with
    | (some (k, v), entries) => ({ m with entries }.notify k v).dropEldest n
    | (none, _) => m

def dropOverflow (m : BoundedMap K V L) : BoundedMap K V L := m.dropEldest (m.size - m.maxSize)

def dropKey (m : BoundedMap K V L) (k : K) : Bool × BoundedMap K V L :=
  match m.entries.removeEntry k with
  | (some (k, v), entries) => (true, { m with entries }.notify k v)
  | (none, _) => (false, m)

def insert (m : BoundedMap K V L) (k : K) (v : V) : Option V × BoundedMap K V L :=
  let (previous, entries) := m.entries.insert k v
  let stored := { m with entries }
  let counted := if previous.isSome then stored.countUpdate else stored.countInsert
  (previous, counted.dropOverflow)

def setMaxSize (m : BoundedMap K V L) (maxSize : Nat) : Except ConfigError Unit × BoundedMap K V L :=
  match checkRoom maxSize with
  | .ok () => (.ok (), { m with maxSize }.dropOverflow)
  | .error e => (.error e, m)

instance [Inspect K] [Inspect V] : Inspect (BoundedMap K V L) where
  inspect m := Text.record "LruMap"
    [("max_size", inspect m.maxSize), ("entries", inspect m.entries)]

end BoundedMap

end Holdall
