import Holdall.Container.Series
import Holdall.Item.Basic
import Mathlib.Data.List.Basic

namespace Holdall.Sequence

variable {α β : Type} {cmp : α → α → Ordering} {xs ys zs : List α} {x y : α}

/-- `ys` has the items of `xs` in ascending order, and those that compare as equal in the order in which
they stand in `xs`. -/
structure StablySorted (cmp : α → α → Ordering) (xs ys : List α) : Prop where
  perm : ys.Perm xs
  ascending : ys.Pairwise fun x y ↦ (cmp x y).isLE
  stable x : ys.filter (cmp x · == .eq) = xs.filter (cmp x · == .eq)

section

variable [Std.TransCmp cmp]

theorem isLE_of_mem_cons (h : (x :: xs).Pairwise fun x y ↦ (cmp x y).isLE) (hy : y ∈ x :: xs) :
    (cmp x y).isLE := by
  cases hy with
  | head => exact Std.ReflCmp.isLE_rfl
  | tail _ hy => exact List.rel_of_pairwise_cons h hy

theorem filter_pair (h : cmp x y = .eq) : [x, y].filter (cmp x · == .eq) = [x, y] := by
  simp [h, Std.ReflCmp.compare_self]

theorem mem_of_filter_eq (h : xs.filter (cmp x · == .eq) = ys.filter (cmp x · == .eq)) (hx : x ∈ xs) :
    x ∈ ys := by
  have hself : (cmp x x == .eq) = true := beq_iff_eq.2 Std.ReflCmp.compare_self
  have hrow : x ∈ xs.filter (cmp x · == .eq) := List.mem_filter.2 ⟨hx, hself⟩
  rw [h] at hrow
  exact List.mem_of_mem_filter hrow

/-- An ascending sequence is known by its rows of equal items. -/
theorem eq_of_filter_eq (hxs : xs.Pairwise fun x y ↦ (cmp x y).isLE)
    (hys : ys.Pairwise fun x y ↦ (cmp x y).isLE)
    (h : ∀ x, xs.filter (cmp x · == .eq) = ys.filter (cmp x · == .eq)) : xs = ys := by
  induction xs generalizing ys with
  | nil =>
    symm
    apply List.eq_nil_iff_forall_not_mem.2
    intro y hy
    exact List.not_mem_nil (mem_of_filter_eq (h y).symm hy)
  | cons x xs ih =>
    cases ys with
    | nil => exact absurd (mem_of_filter_eq (h x) List.mem_cons_self) List.not_mem_nil
    | cons y ys =>
      have hxy : cmp x y = .eq := by
        apply Std.OrientedCmp.isLE_antisymm
        · exact isLE_of_mem_cons hxs (mem_of_filter_eq (h y).symm List.mem_cons_self)
        · exact isLE_of_mem_cons hys (mem_of_filter_eq (h x) List.mem_cons_self)
      have hhead := h x
      rw [List.filter_cons_of_pos (by simp [Std.ReflCmp.compare_self]),
        List.filter_cons_of_pos (by simp [hxy])] at hhead
      obtain ⟨rfl, -⟩ := List.cons.inj hhead
      have hrest : xs = ys := by
        apply ih hxs.of_cons hys.of_cons
        intro z
        have hz := h z
        rw [List.filter_cons, List.filter_cons] at hz
        split at hz
        · exact (List.cons.inj hz).2
        · exact hz
      rw [hrest]

theorem filter_sortedBy (cmp : α → α → Ordering) [Std.TransCmp cmp] (xs : List α) (x : α) :
    (sortedBy cmp xs).filter (cmp x · == .eq) = xs.filter (cmp x · == .eq) := by
  have hequal : (xs.filter (cmp x · == .eq)).Pairwise fun y z ↦ (cmp y z).isLE := by
    apply List.pairwise_of_forall_mem_list
    intro y hy z hz
    have hxy : cmp x y = .eq := by simpa using List.of_mem_filter hy
    have hxz : cmp x z = .eq := by simpa using List.of_mem_filter hz
    rw [← Std.TransCmp.congr_left hxy, hxz]
    rfl
  have hrow := (sublist_sortedBy cmp hequal List.filter_sublist).filter (cmp x · == .eq)
  simp only [List.filter_filter, Bool.and_self] at hrow
  symm
  apply hrow.eq_of_length
  exact ((perm_sortedBy cmp xs).filter _).length_eq.symm

theorem eq_sortedBy_of_filter_eq (hys : ys.Pairwise fun x y ↦ (cmp x y).isLE)
    (h : ∀ x, ys.filter (cmp x · == .eq) = xs.filter (cmp x · == .eq)) : ys = sortedBy cmp xs := by
  apply eq_of_filter_eq hys (pairwise_sortedBy cmp xs)
  intro x
  rw [h, filter_sortedBy]

theorem stablySorted_sortedBy (cmp : α → α → Ordering) [Std.TransCmp cmp] (xs : List α) :
    StablySorted cmp xs (sortedBy cmp xs) where
  perm := perm_sortedBy cmp xs
  ascending := pairwise_sortedBy cmp xs
  stable := filter_sortedBy cmp xs

theorem stablySorted_iff : StablySorted cmp xs ys ↔ ys = sortedBy cmp xs := by
  constructor
  · intro h
    exact eq_sortedBy_of_filter_eq h.ascending h.stable
  · rintro rfl
    exact stablySorted_sortedBy cmp xs

theorem StablySorted.of_rows (h : ys.Pairwise fun x y ↦ (cmp x y).isLE)
    (hrows : ∀ x ∈ xs ++ ys, ys.filter (cmp x · == .eq) = xs.filter (cmp x · == .eq)) :
    StablySorted cmp xs ys := by
  have hall : ∀ x, ys.filter (cmp x · == .eq) = xs.filter (cmp x · == .eq) := by
    intro x
    by_cases hx : ∃ y ∈ xs ++ ys, cmp x y = .eq
    · obtain ⟨y, hy, hxy⟩ := hx
      simp only [Std.TransCmp.congr_left hxy]
      exact hrows y hy
    · have hnone : ∀ y ∈ xs ++ ys, ¬(cmp x y == .eq) = true := by
        intro y hy heq
        exact hx ⟨y, hy, beq_iff_eq.1 heq⟩
      rw [List.forall_mem_append] at hnone
      rw [List.filter_eq_nil_iff.2 hnone.1, List.filter_eq_nil_iff.2 hnone.2]
  exact stablySorted_iff.2 (eq_sortedBy_of_filter_eq h hall)

theorem sortedBy_sortedBy (cmp : α → α → Ordering) [Std.TransCmp cmp] (xs : List α) :
    sortedBy cmp (sortedBy cmp xs) = sortedBy cmp xs :=
  List.mergeSort_of_pairwise (pairwise_sortedBy cmp xs)

theorem sortedBy_eq_iff : sortedBy cmp xs = sortedBy cmp ys ↔
    ∀ x, xs.filter (cmp x · == .eq) = ys.filter (cmp x · == .eq) := by
  constructor
  · intro h x
    rw [← filter_sortedBy cmp xs, h, filter_sortedBy]
  · intro h
    apply eq_sortedBy_of_filter_eq (pairwise_sortedBy cmp xs)
    intro x
    rw [filter_sortedBy, h]

theorem StablySorted.pairwise_of_eq {r : α → α → Prop} (h : StablySorted cmp xs ys)
    (hxs : xs.Pairwise r) : ys.Pairwise fun x y ↦ cmp x y = .eq → r x y := by
  rw [List.pairwise_iff_forall_sublist] at hxs ⊢
  intro x y hxy heq
  apply hxs
  have hrow := hxy.filter (cmp x · == .eq)
  rw [h.stable x, filter_pair heq] at hrow
  exact hrow.trans List.filter_sublist

theorem StablySorted.reverse (h : StablySorted cmp xs ys) :
    StablySorted (fun x y ↦ cmp y x) xs.reverse ys.reverse where
  perm := (List.reverse_perm ys).trans (h.perm.trans (List.reverse_perm xs).symm)
  ascending := List.pairwise_reverse.2 h.ascending
  stable x := by
    have hcomm : ∀ y, (cmp y x == .eq) = (cmp x y == .eq) := by
      intro y
      rw [Bool.eq_iff_iff, beq_iff_eq, beq_iff_eq]
      exact Std.OrientedCmp.eq_comm
    simp only [hcomm, List.filter_reverse, h.stable]

theorem sortedBy_flip (cmp : α → α → Ordering) [Std.TransCmp cmp] (xs : List α) :
    sortedBy (fun x y ↦ cmp y x) xs = (sortedBy cmp xs.reverse).reverse := by
  have hflip : Std.TransCmp fun x y ↦ cmp y x := .opposite
  have h := (stablySorted_sortedBy cmp xs.reverse).reverse
  rw [List.reverse_reverse] at h
  exact (stablySorted_iff.1 h).symm

/-- This does not only reverse what sorting gives, unless all rows of equal items read the same from
either end. -/
theorem sortedBy_flip_eq_reverse_iff : sortedBy (fun x y ↦ cmp y x) xs = (sortedBy cmp xs).reverse ↔
    ∀ x, (xs.filter (cmp x · == .eq)).reverse = xs.filter (cmp x · == .eq) := by
  rw [sortedBy_flip, List.reverse_inj, sortedBy_eq_iff]
  simp only [List.filter_reverse]

theorem sortedBy_flip_pair_ne (h : cmp x y = .eq) (hne : x ≠ y) :
    sortedBy (fun x y ↦ cmp y x) [x, y] ≠ (sortedBy cmp [x, y]).reverse := by
  intro hreverse
  have hrow := sortedBy_flip_eq_reverse_iff.1 hreverse x
  rw [filter_pair h] at hrow
  exact hne (List.cons.inj hrow).1.symm

end

variable [Ord α] [Std.TransOrd α] [Ord β] [Std.TransOrd β]

/-- Each way to sort gives the one rearrangement that is in order and keeps equal items in the order in
which they come, and sorting again changes nothing. To sort by a key is to compare keys. Descending order
is that of the reversed sequence reversed, and not the ascending order reversed where items that differ
compare as equal. -/
theorem sorting_stable (key : α → β) (xs : List α) :
    (∀ (cmp : α → α → Ordering) [Std.TransCmp cmp],
      (∀ ys, StablySorted cmp xs ys ↔ ys = sortedBy cmp xs) ∧
      sortedBy cmp (sortedBy cmp xs) = sortedBy cmp xs) ∧
    ((∀ ys, StablySorted compare xs ys ↔ ys = sorted xs) ∧ sorted (sorted xs) = sorted xs ∧
      (Series.mk xs).sorted.items = sorted xs) ∧
    ((∀ ys, StablySorted (compareOn key) xs ys ↔ ys = sortedByKey key xs) ∧
      sortedByKey key (sortedByKey key xs) = sortedByKey key xs ∧
      sortedByKey key xs = sortedBy (fun x y ↦ compare (key x) (key y)) xs) ∧
    (∀ ys, StablySorted (fun x y ↦ compare y x) xs ys ↔ ys = sortedDescending xs) ∧
    sortedDescending (sortedDescending xs) = sortedDescending xs ∧
    sortedDescending xs = (sorted xs.reverse).reverse ∧
    (sortedDescending xs = (sorted xs).reverse ↔
      ∀ x, (xs.filter (compare x · == .eq)).reverse = xs.filter (compare x · == .eq)) ∧
    ∀ x y : α, compare x y = .eq → x ≠ y → sortedDescending [x, y] ≠ (sorted [x, y]).reverse := by
  have hflip : Std.TransCmp fun x y : α ↦ compare y x := .opposite
  refine ⟨?_, ⟨?_, ?_, rfl⟩, ⟨?_, ?_, rfl⟩, ?_, ?_, ?_, ?_, ?_⟩
  · intro cmp _
    exact ⟨fun _ ↦ stablySorted_iff, sortedBy_sortedBy cmp xs⟩
  · exact fun _ ↦ stablySorted_iff
  · exact sortedBy_sortedBy compare xs
  · exact fun _ ↦ stablySorted_iff
  · exact sortedBy_sortedBy (compareOn key) xs
  · exact fun _ ↦ stablySorted_iff
  · exact sortedBy_sortedBy (fun x y ↦ compare y x) xs
  · exact sortedBy_flip compare xs
  · exact sortedBy_flip_eq_reverse_iff
  · exact fun _ _ ↦ sortedBy_flip_pair_ne

theorem sorting_stable_folded : Std.TransOrd Item ∧ Std.TransCmp (compareOn Item.number) ∧
    let xs : List Item := [.folded "b", .int 2, .folded "B", .int 1]
    sortedBy (compareOn Item.number) xs = [.folded "b", .folded "B", .int 1, .int 2] ∧
    sortedDescending xs = [.folded "b", .folded "B", .int 2, .int 1] ∧
    sortedDescending (sortedDescending xs) = sortedDescending xs ∧
    let pair : List Item := [.folded "b", .folded "B"]
    sortedDescending pair ≠ (sorted pair).reverse := by
  have hflip : Std.TransCmp fun x y : Item ↦ compare y x := .opposite
  refine ⟨inferInstance, inferInstance, ?_⟩
  intro xs
  obtain ⟨hby, -, -, hdescending, htwice, -, -, hpair⟩ := sorting_stable Item.number xs
  have hnumber := (hby (compareOn Item.number)).1 [.folded "b", .folded "B", .int 1, .int 2]
  refine ⟨(hnumber.1 (.of_rows ?_ ?_)).symm, ((hdescending _).1 (.of_rows ?_ ?_)).symm, htwice, ?_⟩
  · decide
  · simp only [xs, List.cons_append, List.nil_append, List.forall_mem_cons]
    exact ⟨rfl, rfl, rfl, rfl, rfl, rfl, rfl, rfl, nofun⟩
  · decide
  · simp only [xs, List.cons_append, List.nil_append, List.forall_mem_cons]
    exact ⟨rfl, rfl, rfl, rfl, rfl, rfl, rfl, rfl, nofun⟩
  · exact hpair (.folded "b") (.folded "B") (by decide) (by simp)

end Holdall.Sequence
