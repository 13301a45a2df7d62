import Holdall.Log

namespace Holdall

variable {K V : Type}

class Listener (L K V : Type) where
  evicted : L → K → V → L

structure Silent where
  deriving DecidableEq, Repr

instance : Listener Silent K V := ⟨fun l _ _ => l⟩

structure Recorder (K V : Type) where
  entries : List (K × V) := []

instance : Listener (Recorder K V) K V := ⟨fun l k v => ⟨l.entries ++ [(k, v)]⟩⟩

structure EvictionCounter where
  count : Nat := 0
  deriving DecidableEq, Repr

instance : Listener EvictionCounter K V := ⟨fun l _ _ => ⟨l.count + 1⟩⟩

/-- Two listeners hear of the same entries. -/
instance {A B : Type} [Listener A K V] [Listener B K V] : Listener (A × B) K V :=
  ⟨fun l k v => (Listener.evicted l.1 k v, Listener.evicted l.2 k v)⟩

structure EvictionJournal where
  name : String := "lru-map"
  maxSize : Option Nat := none
  count : Nat := 0
  lines : List Log.Line := []
  deriving DecidableEq, Repr

namespace EvictionJournal

def warning [Inspect K] (j : EvictionJournal) (k : K) : Log.Line :=
  let size := match j.maxSize with
    | some n => s!" (max size {n})"
    | none => ""
  .warn (j.name ++ ": evicted eldest entry " ++ inspect k ++ size)

instance [Inspect K] : Listener EvictionJournal K V where
  evicted j k _ := { j with count := j.count + 1, lines := j.lines ++ [j.warning k] }

instance : Inspect EvictionJournal where
  inspect j := Text.record "LoggingListener"
    [("name", inspect j.name), ("max_size", inspect j.maxSize), ("evicted", inspect j.count)]

end EvictionJournal

end Holdall
