import Holdall.Text.Inspect

/-!
An arena keeps values in numbered slots. A removed value leaves its slot vacant, and the next value
goes into the slot vacated last, so that the number of slots grows only when none is vacant.
-/

namespace Holdall.Slot

variable {α : Type}

structure Id where
  index : Nat
  deriving DecidableEq, Hashable, Repr

instance : Inspect Id := ⟨fun id => Text.applied "SlotId" [inspect id.index]⟩

structure Arena (α : Type) where
  slots : Array (Option α) := #[]
  /-- Indices of the vacant slots, the one vacated last in front. -/
  vacant : List Nat := []
  size : Nat := 0

namespace Arena

def empty : Arena α := {}

def isEmpty (a : Arena α) : Bool := a.size == 0

def get? (a : Arena α) (id : Id) : Option α := a.slots[id.index]?.join

def contains (a : Arena α) (id : Id) : Bool := (a.get? id).isSome

def put (a : Arena α) (index : Nat) (slot : Option α) : Arena α :=
  { a with slots := a.slots.setIfInBounds index slot }

def insert (a : Arena α) (x : α) : Id × Arena α :=
  match a.vacant with
  | [] => (⟨a.slots.size⟩, { a with slots := a.slots.push (some x), size := a.size + 1 })
  | i :: rest => (⟨i⟩, { a.put i (some x) with vacant := rest, size := a.size + 1 })

/-- Vacates an occupied slot; any other id changes nothing. -/
def remove (a : Arena α) (id : Id) : Option α × Arena α :=
  match a.get? id with
  | some x => (some x, { a.put id.index none with
      vacant := id.index :: a.vacant, size := a.size - 1 })
  | none => (none, a)

/-- Changes the value of an occupied slot; any other id changes nothing. -/
def modify (a : Arena α) (id : Id) (f : α → α) : Arena α :=
  match a.get? id with
  | some x => a.put id.index (some (f x))
  | none => a

theorem get?_empty (id : Id) : (empty : Arena α).get? id = none := by simp [empty, get?]

theorem remove_of_get?_eq_none {a : Arena α} {id : Id} (h : a.get? id = none) :
    a.remove id = (none, a) := by
  simp [remove, h]

theorem modify_of_get?_eq_none {a : Arena α} {id : Id} (f : α → α) (h : a.get? id = none) :
    a.modify id f = a := by
  simp [modify, h]

theorem fst_remove (a : Arena α) (id : Id) : (a.remove id).1 = a.get? id := by
  cases h : a.get? id <;> simp [remove, h]

theorem get?_modify (a : Arena α) (id other : Id) (f : α → α) :
    (a.modify id f).get? other = if other = id then (a.get? id).map f else a.get? other := by
  obtain ⟨i⟩ := id
  obtain ⟨j⟩ := other
  cases h : a.get? ⟨i⟩ with
  | none => rw [modify_of_get?_eq_none f h]; split <;> simp_all
  | some x =>
    have hi : i < a.slots.size := by
      by_cases hi : i < a.slots.size
      · exact hi
      · simp [get?, hi] at h
    have hm : a.modify ⟨i⟩ f = a.put i (some (f x)) := by simp [modify, h]
    rw [hm]
    by_cases hij : j = i
    · subst hij; simp [put, get?, hi]
    · simp [put, get?, hij, Ne.symm hij]

instance [Inspect α] : Inspect (Arena α) where
  inspect a := Text.record "SlotArena"
    [("slots", inspect a.slots), ("free_list", inspect a.vacant.reverse), ("len", inspect a.size)]

end Arena

end Holdall.Slot
