import Holdall.Attribute.Bag
import Holdall.Container.OrderedSet
import Holdall.Container.Series
import Holdall.Container.SnapshotList
import Holdall.Container.SortedSet
import Holdall.SharedMap

namespace Holdall

class Measured (C : Type) where
  length : C → Nat

export Measured (length)

namespace Measured

variable {C α K V L : Type}

def isVoid [Measured C] (c : C) : Bool := length c == 0

instance : Measured (List α) := ⟨List.length⟩

instance : Measured (Array α) := ⟨Array.size⟩

instance {n : Nat} : Measured (Vector α n) := ⟨fun _ => n⟩

instance : Measured String := ⟨String.length⟩

instance : Measured Attribute.Bag := ⟨Attribute.Bag.size⟩

instance : Measured (Series α) := ⟨Series.size⟩

instance : Measured (SnapshotList α) := ⟨SnapshotList.size⟩

instance [Ord α] : Measured (SortedSet α) := ⟨SortedSet.size⟩

instance [Ord K] : Measured (SortedMap K V) := ⟨SortedMap.size⟩

section

variable [BEq α] [BEq K]

instance : Measured (HashedSet α) := ⟨HashedSet.size⟩

instance : Measured (HashedMap K V) := ⟨HashedMap.size⟩

variable [Hashable α] [Hashable K]

/-- The length counts the entries in their order, and so agrees with the size of the index only while
both hold the same entries. -/
instance : Measured (OrderedMap K V) := ⟨fun m => m.entries.size⟩

instance : Measured (OrderedSet α) := ⟨OrderedSet.size⟩

instance : Measured (BoundedMap K V L) := ⟨fun m => length m.entries⟩

instance : Measured (SharedMap K V L) := ⟨fun m => length m.bounded⟩

end

/-- The length of what may be absent. -/
instance [Measured C] : Measured (Option C) := ⟨fun c => c.elim 0 length⟩

end Measured

end Holdall
