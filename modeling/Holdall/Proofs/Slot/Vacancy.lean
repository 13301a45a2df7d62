import Holdall.Proofs.Run
import Holdall.Proofs.Slot.Arena
import Holdall.Proofs.Stamp
import Mathlib.Data.List.Induction

namespace Holdall.Slot.Arena

open Run (InOrder LastAt)

variable {α : Type} {a : Arena α}

inductive Request (α : Type)
  | insert (x : α)
  | remove (id : Id)
  | modify (id : Id) (f : α → α)
  | clear

inductive Answer (α : Type)
  | id (id : Id)
  | value (x : Option α)
  | done
  deriving DecidableEq, Repr

def respond (a : Arena α) : Request α → Answer α × Arena α
  | .insert x => (a.insert x).map .id id
  | .remove i => (a.remove i).map .value id
  | .modify i f => (.value (a.get? i), a.modify i f)
  | .clear => (.done, empty)

abbrev Call (α : Type) := Run.Call (Arena α) (Request α) (Answer α)

variable {cs : List (Call α)} {id : Id} {i : ℕ}

/-- Whether a call takes a value out of slot `i`. -/
def vacates (i : ℕ) (c : Call α) : Bool :=
  match c.request, c.answer with
  | .remove id, .value x => id.index == i && x.isSome
  | _, _ => false

/-- The arena knows of each slot whether it is vacant. -/
structure Accounts (a : Arena α) : Prop where
  once : a.vacant.Nodup
  vacant i : i ∈ a.vacant ↔ a.slots[i]? = some none
  size : a.size = a.slots.countP Option.isSome
  total : a.size + a.vacant.length = a.slots.size

/-- The slot for a new value: of the vacant ones that which was vacated last, or a further one where
none is vacant. -/
inductive Chosen (a : Arena α) (cs : List (Call α)) : ℕ → Prop
  | reused {i n : ℕ} : a.slots[i]? = some none → LastAt (vacates i) cs n →
      (∀ j : ℕ, a.slots[j]? = some none → ∃ m ≤ n, LastAt (vacates j) cs m) → Chosen a cs i
  | added : (∀ j : ℕ, a.slots[j]? ≠ some none) → Chosen a cs a.slots.size

theorem vacant_slot_iff : a.slots[i]? = some none ↔ i < a.slots.size ∧ a.get? ⟨i⟩ = none := by
  rw [get?, Array.getElem?_eq_some_iff]
  by_cases hi : i < a.slots.size
  · simp [hi]
  · simp [hi]

theorem contains_eq_false_iff : a.contains id = false ↔ a.get? id = none := by
  rw [contains, Option.isSome_eq_false_iff, Option.isNone_iff_eq_none]

theorem toList_slots (a : Arena α) :
    a.slots.toList = (List.range a.slots.size).map fun i ↦ a.get? ⟨i⟩ := by
  apply List.ext_getElem
  · simp
  · intro i hi _
    have hi' : i < a.slots.size := by simpa using hi
    simp [get?, hi']

theorem vacant_insert (a : Arena α) (x : α) : (a.insert x).2.vacant = a.vacant.tail := by
  cases h : a.vacant <;> simp [insert, h]

theorem vacant_remove (a : Arena α) (id : Id) : (a.remove id).2.vacant =
    if (a.get? id).isSome then id.index :: a.vacant else a.vacant := by
  cases h : a.get? id <;> simp [remove, h]

theorem call_remove (a : Arena α) (id : Id) :
    Run.call respond a (.remove id) = ⟨a, .remove id, .value (a.get? id)⟩ := by
  rw [← fst_remove]
  rfl

namespace Sound

theorem respond (h : a.Sound) (r : Request α) : (a.respond r).2.Sound := by
  cases r with
  | insert x => exact h.insert x
  | remove i => exact h.remove i
  | modify i f => exact h.modify i f
  | clear => exact sound_empty

theorem after (h : a.Sound) (rs : List (Request α)) : (Run.after Arena.respond a rs).Sound :=
  Run.after_induction (P := Sound) (fun _ r ha ↦ ha.respond r) h rs

theorem mem_vacant_iff (h : a.Sound) : i ∈ a.vacant ↔ a.slots[i]? = some none := by
  rw [h.mem_vacant, vacant_slot_iff]

theorem vacant_perm (h : a.Sound) : a.vacant.Perm
    ((List.range a.slots.size).filter fun i ↦ ¬ (a.get? ⟨i⟩).isSome = true) := by
  rw [List.perm_ext_iff_of_nodup h.nodup (List.nodup_range.filter _)]
  intro i
  rw [h.mem_vacant, List.mem_filter, List.mem_range]
  simp

theorem size_eq_countP (h : a.Sound) : a.size = a.slots.countP Option.isSome := by
  have hcount : a.slots.countP Option.isSome + a.vacant.length = a.slots.size := by
    have hall := List.length_eq_countP_add_countP (fun i ↦ (a.get? ⟨i⟩).isSome)
      (l := List.range a.slots.size)
    rw [List.length_range] at hall
    rw [h.vacant_perm.length_eq, ← List.countP_eq_length_filter, ← Array.countP_toList,
      toList_slots, List.countP_map]
    exact hall.symm
  have ht := h.total
  omega

theorem accounts (h : a.Sound) : a.Accounts where
  once := h.nodup
  vacant _ := h.mem_vacant_iff
  size := h.size_eq_countP
  total := h.total

/-- A call leaves the vacant slots in the order in which they were vacated, the last one in front. -/
theorem inOrder_respond (h : a.Sound) (hcs : InOrder vacates cs a.vacant.reverse) (r : Request α) :
    InOrder vacates (cs ++ [Run.call Arena.respond a r]) (a.respond r).2.vacant.reverse := by
  -- A call that vacates no slot leaves those listed in the order they had.
  have hidle : ∀ c : Call α, (∀ i, vacates i c = false) →
      InOrder vacates (cs ++ [c]) a.vacant.reverse := fun c hc ↦ hcs.keep fun i _ ↦ hc i
  cases r with
  | insert x =>
    change InOrder _ _ (a.insert x).2.vacant.reverse
    rw [vacant_insert]
    exact (hidle _ fun _ ↦ rfl).sublist (List.reverse_sublist.2 a.vacant.tail_sublist)
  | remove id =>
    change InOrder _ _ (a.remove id).2.vacant.reverse
    rw [call_remove, vacant_remove]
    cases hx : a.get? id with
    | none => exact hidle _ fun i ↦ Bool.and_false _
    | some x =>
      have hothers : ∀ i ∈ a.vacant, (id.index == i) = false := by
        intro i hi
        rw [beq_eq_false_iff_ne]
        rintro rfl
        have hnone := ((h.mem_vacant _).1 hi).2
        exact Option.some_ne_none x (hx.symm.trans hnone)
      rw [Option.isSome_some, if_pos rfl, List.reverse_cons]
      refine hcs.push (fun i hi ↦ ?_) ?_
      · simp [vacates, hothers i (List.mem_reverse.1 hi)]
      · simp [vacates]
  | modify id f =>
    change InOrder _ _ (a.modify id f).vacant.reverse
    rw [vacant_modify]
    exact hidle _ fun _ ↦ rfl
  | clear => exact (hidle _ fun _ ↦ rfl).sublist (List.nil_sublist _)

theorem chosen (h : a.Sound) (hcs : InOrder vacates cs a.vacant.reverse) (x : α) :
    a.Chosen cs (a.insert x).1.index := by
  cases hv : a.vacant with
  | nil =>
    have hnone : ∀ j : ℕ, a.slots[j]? ≠ some none := fun j hj ↦ by
      simpa [hv] using h.mem_vacant_iff.2 hj
    have hchosen : a.Chosen cs a.slots.size := .added hnone
    simpa [Arena.insert, hv] using hchosen
  | cons i rest =>
    obtain ⟨stamp, hlast, hlt⟩ := hcs
    rw [List.pairwise_reverse, hv, List.pairwise_cons] at hlt
    simp only [List.mem_reverse] at hlast
    have hi : i ∈ a.vacant := by simp [hv]
    have hchosen : a.Chosen cs i := by
      refine .reused (h.mem_vacant_iff.1 hi) (hlast i hi) fun j hj ↦ ?_
      have hmem := h.mem_vacant_iff.2 hj
      refine ⟨stamp j, ?_, hlast j hmem⟩
      rw [hv, List.mem_cons] at hmem
      rcases hmem with rfl | hrest
      · exact le_rfl
      · exact (hlt.1 j hrest).le
    simpa [Arena.insert, hv] using hchosen

end Sound

theorem inOrder_after (rs : List (Request α)) : InOrder vacates (Run.calls respond (empty : Arena α) rs)
    (Run.after respond (empty : Arena α) rs).vacant.reverse := by
  induction rs using List.reverseRecOn with
  | nil => exact ⟨fun _ ↦ 0, by simp [Run.after, empty], by simp [Run.after, empty]⟩
  | append_singleton rs r ih =>
    rw [Run.calls_append, Run.after_append]
    exact (sound_empty.after rs).inOrder_respond ih r

/-- Whatever a run has led to, the vacant slots are listed once each and the size counts the others. A
new value goes into a slot that is not occupied, the one vacated last if there is one. What is inserted
or removed is seen under its own id only, and an id that stands for nothing removes nothing. -/
theorem accounts_after (rs : List (Request α)) :
    let a : Arena α := Run.after respond empty rs
    a.Accounts ∧
    (∀ x, a.contains (a.insert x).1 = false ∧
      a.Chosen (Run.calls respond empty rs) (a.insert x).1.index ∧
      ∀ id, (a.insert x).2.get? id = if id = (a.insert x).1 then some x else a.get? id) ∧
    (∀ id, (a.remove id).1 = a.get? id ∧
      (∀ other, (a.remove id).2.get? other = if other = id then none else a.get? other) ∧
      (a.remove id).2.remove id = (none, (a.remove id).2)) ∧
    ∀ id, a.slots[id.index]? = some none ∨ a.slots.size ≤ id.index → a.remove id = (none, a) := by
  intro a
  have h : a.Sound := sound_empty.after rs
  refine ⟨h.accounts, ?_, ?_, ?_⟩
  · intro x
    exact ⟨contains_eq_false_iff.2 (h.get?_fresh x), h.chosen (inOrder_after rs) x, h.get?_insert x⟩
  · intro id
    refine ⟨fst_remove a id, get?_remove a id, remove_of_get?_eq_none ?_⟩
    rw [get?_remove, if_pos rfl]
  · intro id hid
    apply remove_of_get?_eq_none
    rcases hid with hvacant | hout
    · exact (vacant_slot_iff.1 hvacant).2
    · simp [get?, hout]

theorem accounts_after_reuse :
    let a : Arena ℕ := Run.after respond empty [.insert 1, .insert 2, .insert 3, .remove ⟨0⟩,
      .modify ⟨1⟩ (· + 5), .remove ⟨2⟩, .remove ⟨0⟩, .remove ⟨9⟩]
    a.slots[0]? = some none ∧ a.slots.size ≤ 9 ∧
    a.remove ⟨0⟩ = (none, a) ∧ a.remove ⟨9⟩ = (none, a) ∧
    a.contains ⟨2⟩ = false ∧ (a.insert 4).1 = ⟨2⟩ ∧ (a.insert 4).2.get? ⟨1⟩ = some 7 := by
  intro a
  obtain ⟨-, hinsert, -, habsent⟩ := accounts_after [.insert 1, .insert 2, .insert 3, .remove ⟨0⟩,
      .modify ⟨1⟩ (· + 5), .remove ⟨2⟩, .remove ⟨0⟩, .remove ⟨9⟩]
  obtain ⟨hfresh, -, hget⟩ := hinsert 4
  have hvacant : a.slots[0]? = some none := by decide
  have hout : a.slots.size ≤ 9 := by decide
  have hid : (a.insert 4).1 = ⟨2⟩ := by decide
  refine ⟨hvacant, hout, habsent ⟨0⟩ (.inl hvacant), habsent ⟨9⟩ (.inr hout), ?_, hid, ?_⟩
  · rw [← hid]
    exact hfresh
  · exact (hget ⟨1⟩).trans (by decide)

end Holdall.Slot.Arena
