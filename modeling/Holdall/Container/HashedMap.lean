import Holdall.Text.Inspect

/-!
Maps whose entries stand in no order of their own: the list of entries is one way in which they may
come out. Keys are pairwise unequal. Storing under a present key keeps the key stored first and
replaces the value.
-/

namespace Holdall

variable {K V U : Type} [BEq K]

structure HashedMap (K V : Type) [BEq K] where
  entries : List (K × V) := []
  distinct : (entries.map Prod.fst).Pairwise fun a b => (a == b) = false := by simp

namespace HashedMap

def empty : HashedMap K V := {}

def size (m : HashedMap K V) : Nat := m.entries.length

def keys (m : HashedMap K V) : List K := m.entries.map Prod.fst

def values (m : HashedMap K V) : List V := m.entries.map Prod.snd

def contains (m : HashedMap K V) (k : K) : Bool := m.entries.any (·.1 == k)

def get? (m : HashedMap K V) (k : K) : Option V := (m.entries.find? (·.1 == k)).map Prod.snd

def getD (m : HashedMap K V) (k : K) (default : V) : V := (m.get? k).getD default

def overwrite (k : K) (v : V) (entries : List (K × V)) : List (K × V) :=
  entries.map fun e => if e.1 == k then (e.1, v) else e

theorem keys_overwrite (k : K) (v : V) (entries : List (K × V)) :
    (overwrite k v entries).map Prod.fst = entries.map Prod.fst := by
  simp only [overwrite, List.map_map, List.map_inj_left, Function.comp_apply]
  intro e _
  split <;> rfl

theorem distinct_append {entries : List (K × V)} {k : K} {v : V}
    (h : (entries.map Prod.fst).Pairwise fun a b => (a == b) = false)
    (hk : entries.any (·.1 == k) = false) :
    ((entries ++ [(k, v)]).map Prod.fst).Pairwise fun a b => (a == b) = false := by
  rw [List.map_append, List.pairwise_append]
  refine ⟨h, by simp, ?_⟩
  intro a ha b hb
  obtain ⟨e, he, rfl⟩ := List.mem_map.1 ha
  simp only [List.map_cons, List.map_nil, List.mem_singleton] at hb
  simpa [hb] using List.any_eq_false.1 hk e he

theorem distinct_filter {entries : List (K × V)} (p : K × V → Bool)
    (h : (entries.map Prod.fst).Pairwise fun a b => (a == b) = false) :
    ((entries.filter p).map Prod.fst).Pairwise fun a b => (a == b) = false :=
  h.sublist ((List.filter_sublist (p := p)).map Prod.fst)

def put (m : HashedMap K V) (k : K) (v : V) : HashedMap K V :=
  if h : m.contains k then
    ⟨overwrite k v m.entries, by rw [keys_overwrite]; exact m.distinct⟩
  else ⟨m.entries ++ [(k, v)], distinct_append m.distinct (by simpa [contains] using h)⟩

def insert (m : HashedMap K V) (k : K) (v : V) : Option V × HashedMap K V := (m.get? k, m.put k v)

def erase (m : HashedMap K V) (k : K) : HashedMap K V :=
  ⟨m.entries.filter fun e => !(e.1 == k), distinct_filter _ m.distinct⟩

def remove (m : HashedMap K V) (k : K) : Option V × HashedMap K V := (m.get? k, m.erase k)

def extend (m : HashedMap K V) (pairs : List (K × V)) : HashedMap K V :=
  pairs.foldl (fun m (k, v) => m.put k v) m

def ofList (pairs : List (K × V)) : HashedMap K V := empty.extend pairs

def mapValues (m : HashedMap K V) (f : V → U) : HashedMap K U :=
  ofList (m.entries.map fun (k, v) => (k, f v))

def filterM {m : Type → Type} [Monad m] (map : HashedMap K V) (keep : K → V → m Bool) :
    m (HashedMap K V) := do
  return ofList (← map.entries.filterM fun (k, v) => keep k v)

/-- Each value as a key of the key it had. -/
def invert [BEq V] (m : HashedMap K V) : HashedMap V K :=
  ofList (m.entries.map fun (k, v) => (v, k))

/-- The same keys with equal values. -/
instance [BEq V] : BEq (HashedMap K V) where
  beq m n := m.size == n.size && m.entries.all fun (k, v) => n.get? k == some v

instance [Inspect K] [Inspect V] : Inspect (HashedMap K V) := ⟨fun m => inspectEntries m.entries⟩

end HashedMap

end Holdall
