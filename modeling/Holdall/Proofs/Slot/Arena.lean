import Holdall.Slot.Arena
import Mathlib.Data.List.Perm.Subperm

namespace Holdall.Slot.Arena

variable {α : Type} {a : Arena α}

structure Sound (a : Arena α) : Prop where
  nodup : a.vacant.Nodup
  mem_vacant : ∀ i, i ∈ a.vacant ↔ i < a.slots.size ∧ a.get? ⟨i⟩ = none
  total : a.size + a.vacant.length = a.slots.size

theorem sound_empty : (empty : Arena α).Sound := by
  refine ⟨by simp [empty], ?_, by simp [empty]⟩
  simp [empty]

theorem lt_of_get?_eq_some {i : ℕ} {x : α} (h : a.get? ⟨i⟩ = some x) : i < a.slots.size := by
  by_contra hi
  simp [get?, hi] at h

theorem get?_put {i : ℕ} (hi : i < a.slots.size) (slot : Option α) (j : ℕ) :
    (a.put i slot).get? ⟨j⟩ = if j = i then slot else a.get? ⟨j⟩ := by
  by_cases hij : j = i
  · subst hij
    simp [put, get?, hi]
  · simp [put, get?, hij, Ne.symm hij]

@[simp] theorem size_slots_put (a : Arena α) (i : ℕ) (slot : Option α) :
    (a.put i slot).slots.size = a.slots.size := by simp [put]

theorem get?_remove (a : Arena α) (id other : Id) :
    (a.remove id).2.get? other = if other = id then none else a.get? other := by
  obtain ⟨i⟩ := id
  obtain ⟨j⟩ := other
  cases h : a.get? ⟨i⟩ with
  | none =>
    rw [remove_of_get?_eq_none h]
    split <;> simp_all
  | some x =>
    simp only [remove, h, Id.mk.injEq]
    exact get?_put (lt_of_get?_eq_some h) none j

theorem size_remove {id : Id} {x : α} (h : a.get? id = some x) :
    (a.remove id).2.size = a.size - 1 := by
  simp [remove, h]

@[simp] theorem size_modify (a : Arena α) (id : Id) (f : α → α) : (a.modify id f).size = a.size := by
  cases h : a.get? id <;> simp [modify, h, put]

@[simp] theorem size_slots_modify (a : Arena α) (id : Id) (f : α → α) :
    (a.modify id f).slots.size = a.slots.size := by
  cases h : a.get? id <;> simp [modify, h, put]

@[simp] theorem vacant_modify (a : Arena α) (id : Id) (f : α → α) :
    (a.modify id f).vacant = a.vacant := by
  cases h : a.get? id <;> simp [modify, h, put]

@[simp] theorem size_insert (a : Arena α) (x : α) : (a.insert x).2.size = a.size + 1 := by
  rw [insert.eq_def]
  split <;> rfl

namespace Sound

theorem get?_fresh (h : a.Sound) (x : α) : a.get? (a.insert x).1 = none := by
  cases hv : a.vacant with
  | nil => simp [insert, hv, get?]
  | cons i rest =>
    have hi := (h.mem_vacant i).1 (by simp [hv])
    simpa [insert, hv] using hi.2

theorem get?_insert (h : a.Sound) (x : α) (id : Id) :
    (a.insert x).2.get? id = if id = (a.insert x).1 then some x else a.get? id := by
  obtain ⟨j⟩ := id
  cases hv : a.vacant with
  | nil =>
    simp only [insert, hv, get?, Array.getElem?_push, Id.mk.injEq]
    split <;> rfl
  | cons i rest =>
    have hi := (h.mem_vacant i).1 (by simp [hv])
    have hput := get?_put hi.1 (some x) j
    simpa [insert, hv, get?] using hput

theorem size_pos (h : a.Sound) {id : Id} {x : α} (hx : a.get? id = some x) : 0 < a.size := by
  have hlt := lt_of_get?_eq_some hx
  have hsub : a.vacant ⊆ (List.range a.slots.size).erase id.index := by
    intro i hi
    have hv := (h.mem_vacant i).1 hi
    have hne : i ≠ id.index := by
      rintro rfl
      simp [hx] at hv
    exact (List.mem_erase_of_ne hne).2 (List.mem_range.2 hv.1)
  have hle := (List.subperm_of_subset h.nodup hsub).length_le
  rw [List.length_erase_of_mem (List.mem_range.2 hlt), List.length_range] at hle
  have ht := h.total
  omega

theorem insert (h : a.Sound) (x : α) : (a.insert x).2.Sound := by
  have hget := h.get?_insert x
  have ht := h.total
  cases hv : a.vacant with
  | nil =>
    simp only [Arena.insert, hv, List.length_nil] at hget ht ⊢
    refine ⟨List.nodup_nil, fun i ↦ ?_, by simp; omega⟩
    simp only [List.not_mem_nil, Array.size_push, false_iff, hget, Id.mk.injEq]
    have hi := h.mem_vacant i
    simp only [hv, List.not_mem_nil, false_iff, not_and] at hi
    split
    · simp
    · exact fun hc ↦ hi (by omega) hc.2
  | cons j rest =>
    simp only [Arena.insert, hv, List.length_cons] at hget ht ⊢
    have hnodup := h.nodup
    rw [hv, List.nodup_cons] at hnodup
    refine ⟨hnodup.2, fun i ↦ ?_, by simp; omega⟩
    have hi := h.mem_vacant i
    simp only [hv, List.mem_cons] at hi
    simp only [size_slots_put, hget, Id.mk.injEq]
    by_cases hij : i = j
    · subst hij
      simpa using hnodup.1
    · simpa [hij] using hi

theorem remove (h : a.Sound) (id : Id) : (a.remove id).2.Sound := by
  cases hx : a.get? id with
  | none => rwa [remove_of_get?_eq_none hx]
  | some x =>
    have hget := get?_remove a id
    have hpos := h.size_pos hx
    have ht := h.total
    simp only [Arena.remove, hx] at hget ⊢
    have hnew : id.index ∉ a.vacant := fun hc ↦ by simp [(h.mem_vacant _).1 hc] at hx
    refine ⟨List.nodup_cons.2 ⟨hnew, h.nodup⟩, fun i ↦ ?_, by simp; omega⟩
    rw [List.mem_cons, h.mem_vacant]
    simp only [size_slots_put, hget]
    by_cases hi : i = id.index
    · subst hi
      simp [lt_of_get?_eq_some hx]
    · have hne : (⟨i⟩ : Id) ≠ id := fun hc ↦ hi (by rw [← hc])
      simp [hi, hne]

theorem modify (h : a.Sound) (id : Id) (f : α → α) : (a.modify id f).Sound := by
  refine ⟨by simpa using h.nodup, fun i ↦ ?_, by simpa using h.total⟩
  rw [vacant_modify, h.mem_vacant, size_slots_modify, get?_modify]
  split
  · simp_all
  · rfl

end Sound

end Holdall.Slot.Arena
