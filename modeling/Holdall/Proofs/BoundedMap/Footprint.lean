import Holdall.Proofs.BoundedMap.Overflow
import Holdall.Proofs.Slot.Footprint
import Mathlib.Data.List.Infix

namespace Holdall

variable {K V L : Type} [BEq K] [Hashable K]

namespace OrderedMap

variable {m : OrderedMap K V} {order : EntryOrder} {es : List (K × V)}

def footprint (m : OrderedMap K V) : ℕ := m.entries.footprint

@[simp] theorem footprint_use (m : OrderedMap K V) (id : Slot.Id) :
    (m.use id).footprint = m.footprint := by
  rw [use]
  split
  next => rfl
  next => exact Slot.Chain.footprint_moveToBack _ _

@[simp] theorem footprint_setValue (m : OrderedMap K V) (id : Slot.Id) (f : V → V) :
    (m.setValue id f).footprint = m.footprint := Slot.Chain.footprint_modify _ _ _

@[simp] theorem footprint_get (m : OrderedMap K V) (k : K) :
    (m.get k).2.footprint = m.footprint := by
  rw [get]
  split <;> simp

@[simp] theorem footprint_modify (m : OrderedMap K V) (k : K) (f : V → V) :
    (m.modify k f).2.footprint = m.footprint := by
  rw [modify]
  split <;> simp

@[simp] theorem footprint_touch (m : OrderedMap K V) (k : K) :
    (m.touch k).2.footprint = m.footprint := by
  rw [touch]
  split <;> simp

@[simp] theorem footprint_remove (m : OrderedMap K V) (k : K) :
    (m.remove k).2.footprint = m.footprint := by
  change (m.removeEntry k).2.footprint = _
  rw [removeEntry]
  split
  next id _ => exact Slot.Chain.footprint_remove m.entries id
  next => rfl

@[simp] theorem footprint_popEldest (m : OrderedMap K V) :
    m.popEldest.2.footprint = m.footprint := by
  have hforget : ∀ p, (m.forget p).2.entries = p.2 := by
    rintro ⟨_ | _, _⟩ <;> rfl
  rw [footprint, popEldest, hforget, Slot.Chain.footprint_popFront, footprint]

theorem Shows.footprint_insert_le (h : m.Shows order es) (k : K) (v : V) :
    (m.insert k v).2.footprint ≤ max (es.length + 1) m.footprint := by
  rw [OrderedMap.insert]
  split
  next => simp
  next =>
    obtain ⟨-, s, hs, rfl⟩ := h
    rw [List.length_map]
    exact (hs.chain.footprint_pushBack (k, v)).le

end OrderedMap

namespace BoundedMap

variable {m : BoundedMap K V L} {start : L} {order : EntryOrder} {b : BoundedList K V}

def footprint (m : BoundedMap K V L) : ℕ := m.entries.footprint

variable [Listener L K V]

@[simp] theorem footprint_dropEldest (n : ℕ) (m : BoundedMap K V L) :
    (m.dropEldest n).footprint = m.footprint := by
  induction n generalizing m with
  | zero => rfl
  | succ n ih =>
    have hpop := m.entries.footprint_popEldest
    rw [dropEldest]
    split
    next entries heq =>
      rw [heq] at hpop
      rw [ih]
      exact hpop
    next => rfl

@[simp] theorem footprint_dropOverflow (m : BoundedMap K V L) :
    m.dropOverflow.footprint = m.footprint := footprint_dropEldest _ m

/-- A request adds at most the slot of one entry to those that the map has. -/
theorem Shows.footprint_respond_le (h : m.Shows start order b) (r : Request K V) :
    (m.respond r).2.footprint ≤ max (b.entries.length + 1) m.footprint := by
  have hkept : ∀ n : BoundedMap K V L, n.footprint = m.footprint →
      n.footprint ≤ max (b.entries.length + 1) m.footprint := fun n hn ↦ hn ▸ le_max_right _ _
  cases r with
  | insert k v =>
    have hinsert := h.entries.footprint_insert_le k v
    change (m.insert k v).2.footprint ≤ _
    rw [BoundedMap.insert]
    dsimp only
    rw [footprint_dropOverflow]
    split <;> exact hinsert
  | get k =>
    refine hkept _ ?_
    change (m.get k).2.footprint = _
    rw [BoundedMap.get]
    split
    · exact m.entries.footprint_get k
    · rfl
  | modify k f =>
    refine hkept _ ?_
    change (m.modify k f).2.footprint = _
    rw [BoundedMap.modify]
    split
    · exact m.entries.footprint_modify k f
    · rfl
  | peek k | contains k | resetStats => exact hkept _ rfl
  | touch k => exact hkept _ (m.entries.footprint_touch k)
  | remove k => exact hkept _ (m.entries.footprint_remove k)
  | popEldest => exact hkept _ m.entries.footprint_popEldest
  | setMaxSize n =>
    cases n with
    | zero => exact hkept _ rfl
    | succ n => exact hkept _ (footprint_dropOverflow _)
  | clear => exact Nat.zero_le _

variable [EquivBEq K] [LawfulHashable K]

theorem footprint_after_le (maxSize : ℕ) (start : L) (order : EntryOrder) {rs : List (Request K V)}
    {bound : ℕ} (hbound : bound ∈ upperBounds (Run.reached respond BoundedMap.maxSize (fun _ ↦ True)
      (create maxSize start order : BoundedMap K V L) rs)) :
    (Run.after respond (create maxSize start order : BoundedMap K V L) rs).footprint ≤ bound + 1 := by
  induction rs using List.reverseRecOn with
  | nil => exact Nat.zero_le _
  | append_singleton rs r ih =>
    rw [Run.reached_concat trivial] at hbound
    have hrest := ih fun n hn ↦ hbound (.inr hn)
    have h := (shows_create (K := K) (V := V) maxSize start order).after rs
    have hempty : BoundedList.Fits (⟨[], maxSize, []⟩ : BoundedList K V) := Nat.zero_le maxSize
    have hfits := BoundedList.fits_after order hempty rs
    have hmax := hbound (.inr (Run.measure_after_mem_reached rs))
    rw [h.maxSize] at hmax
    rw [Run.after_append]
    calc _ ≤ max _ _ := h.footprint_respond_le r
      _ ≤ bound + 1 := max_le (Nat.succ_le_succ (hfits.trans hmax)) hrest

/-- An arena has as many slots, live or vacant, as it had values at one time since all of them were last
given up. Hence the slots of a bounded map are never more than the largest of the bounds that it has had,
and one. -/
theorem slots_bounded :
    (∀ {α : Type} (rs : List (Slot.Arena.Request α)),
      IsGreatest (Run.reached Slot.Arena.respond Slot.Arena.size (· ≠ .clear) .empty rs)
        (Run.after Slot.Arena.respond (.empty : Slot.Arena α) rs).slots.size) ∧
    ∀ (maxSize : ℕ) (start : L) (order : EntryOrder) (rs : List (Request K V)),
      let m : BoundedMap K V L := create maxSize start order
      ∃ bound, IsGreatest (Run.reached respond BoundedMap.maxSize (fun _ ↦ True) m rs) bound ∧
        (Run.after respond m rs).entries.entries.nodes.slots.size ≤ bound + 1 := by
  refine ⟨Slot.Arena.isGreatest_size_slots, ?_⟩
  intro maxSize start order rs m
  obtain ⟨bound, hbound⟩ :=
    Run.exists_isGreatest_reached respond BoundedMap.maxSize (fun _ ↦ True) m rs
  exact ⟨bound, hbound, footprint_after_le maxSize start order hbound.2⟩

theorem slots_bounded_folded : EquivBEq Item ∧ LawfulHashable Item ∧
    let rs : List (Request Item ℕ) := [.insert (.folded "a") 1, .insert (.text "b") 2, .setMaxSize 2,
      .insert (.folded "A") 3, .remove (.text "b"), .insert (.text "c") 4, .insert (.text "d") 5,
      .setMaxSize 1, .insert (.folded "D") 6]
    let m : BoundedMap Item ℕ (Recorder Item ℕ) := Run.after respond (create 1 ⟨[]⟩) rs
    m.entries.entries.nodes.slots.size ≤ 3 := by
  refine ⟨inferInstance, inferInstance, ?_⟩
  intro rs m
  have h := shows_create (K := Item) (V := ℕ) 1 (⟨[]⟩ : Recorder Item ℕ) .access
  have hle : ∀ ps ∈ rs.inits,
      (Run.after (BoundedList.respond .access) { maxSize := 1 } ps).maxSize ≤ 2 := by decide
  obtain ⟨bound, ⟨⟨ps, qs, hsplit, -, rfl⟩, -⟩, hslots⟩ :=
    (slots_bounded (L := Recorder Item ℕ)).2 1 ⟨[]⟩ .access rs
  have hbound := hle ps ((List.mem_inits ps rs).2 ⟨qs, hsplit.symm⟩)
  rw [← (h.after ps).maxSize] at hbound
  exact hslots.trans (Nat.succ_le_succ hbound)

end BoundedMap

end Holdall
