import Holdall.Proofs.Peak
import Holdall.Proofs.Slot.Vacancy
import Holdall.Proofs.Slot.Chain

namespace Holdall.Slot

variable {α : Type}

namespace Arena

variable {a : Arena α} {r : Request α}

@[simp] theorem size_slots_remove (a : Arena α) (id : Id) :
    (a.remove id).2.slots.size = a.slots.size := by
  cases h : a.get? id <;> simp [remove, h]

theorem size_remove_le (a : Arena α) (id : Id) : (a.remove id).2.size ≤ a.size := by
  cases h : a.get? id <;> simp [remove, h]

namespace Sound

theorem size_le (h : a.Sound) : a.size ≤ a.slots.size := h.total ▸ Nat.le_add_right _ _

theorem size_slots_insert (h : a.Sound) (x : α) :
    (a.insert x).2.slots.size = max (a.size + 1) a.slots.size := by
  have ht := h.total
  cases hv : a.vacant with
  | nil =>
    rw [hv, List.length_nil] at ht
    simp only [Arena.insert, hv, Array.size_push]
    omega
  | cons i rest =>
    rw [hv, List.length_cons] at ht
    simp only [Arena.insert, hv, size_slots_put]
    omega

theorem size_slots_respond (h : a.Sound) (hr : r ≠ .clear) :
    (a.respond r).2.slots.size = max (a.respond r).2.size a.slots.size := by
  have hle := h.size_le
  cases r with
  | insert x =>
    change (a.insert x).2.slots.size = max (a.insert x).2.size _
    rw [h.size_slots_insert, size_insert]
  | remove id =>
    change (a.remove id).2.slots.size = max (a.remove id).2.size _
    rw [size_slots_remove, max_eq_right ((size_remove_le a id).trans hle)]
  | modify id f =>
    change (a.modify id f).slots.size = max (a.modify id f).size _
    rw [size_slots_modify, size_modify, max_eq_right hle]
  | clear => exact absurd rfl hr

end Sound

theorem isGreatest_size_slots (rs : List (Request α)) :
    IsGreatest (Run.reached respond size (· ≠ .clear) (empty : Arena α) rs)
      (Run.after respond (empty : Arena α) rs).slots.size := by
  refine Run.isGreatest_reached (fun a : Arena α ↦ a.slots.size) (P := Sound)
    (fun _ r h ↦ h.respond r) ?_ ?_ sound_empty rfl rs
  · intro a r h hr
    exact h.size_slots_respond hr
  · intro a r hr
    rw [not_ne_iff.1 hr]
    rfl

end Arena

namespace Chain

variable {c : Chain α} {s : List (Id × α)}

/-- The number of slots, those of nodes and those that are vacant. -/
def footprint (c : Chain α) : ℕ := c.nodes.slots.size

@[simp] theorem footprint_linkAfter (c : Chain α) (place target : Option Id) :
    (c.linkAfter place target).footprint = c.footprint := by
  cases place <;> simp [footprint, linkAfter]

@[simp] theorem footprint_linkBefore (c : Chain α) (place target : Option Id) :
    (c.linkBefore place target).footprint = c.footprint := by
  cases place <;> simp [footprint, linkBefore]

@[simp] theorem footprint_modify (c : Chain α) (id : Id) (f : α → α) :
    (c.modify id f).footprint = c.footprint := Arena.size_slots_modify _ _ _

@[simp] theorem footprint_detach (c : Chain α) (id : Id) (node : Node α) :
    (c.detach id node).footprint = c.footprint := by
  rw [detach, footprint, Arena.size_slots_modify, ← footprint, footprint_linkBefore,
    footprint_linkAfter]

@[simp] theorem footprint_attachBack (c : Chain α) (id : Id) :
    (c.attachBack id).footprint = c.footprint := by
  refine (footprint_linkAfter _ _ _).trans ?_
  rw [footprint, Arena.size_slots_modify, ← footprint]

@[simp] theorem footprint_remove (c : Chain α) (id : Id) :
    (c.remove id).2.footprint = c.footprint := by
  rw [remove]
  split
  next => rfl
  next node _ =>
    change ((c.detach id node).nodes.remove id).2.slots.size = _
    rw [Arena.size_slots_remove, ← footprint, footprint_detach]

@[simp] theorem footprint_popFront (c : Chain α) : c.popFront.2.footprint = c.footprint := by
  rw [popFront]
  split
  next id _ => exact footprint_remove c id
  next => rfl

@[simp] theorem footprint_moveToBack (c : Chain α) (id : Id) :
    (c.moveToBack id).2.footprint = c.footprint := by
  rw [moveToBack]
  split
  next => rfl
  next node _ =>
    dsimp only
    split
    · rfl
    · rw [footprint_attachBack, footprint_detach]

theorem Holds.footprint_pushBack (h : c.Holds s) (x : α) :
    (c.pushBack x).2.footprint = max (s.length + 1) c.footprint := by
  have hslots := h.sound.size_slots_insert { value := x, before := c.last }
  rw [h.size] at hslots
  exact (footprint_linkAfter _ _ _).trans hslots

end Chain

end Holdall.Slot
