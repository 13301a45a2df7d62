namespace Holdall.Sequence

variable {α β : Type}

def sortedBy (cmp : α → α → Ordering) (xs : List α) : List α := xs.mergeSort fun a b => (cmp a b).isLE

def sorted [Ord α] (xs : List α) : List α := sortedBy compare xs

def sortedDescending [Ord α] (xs : List α) : List α := sortedBy (fun a b => compare b a) xs

def sortedByKey [Ord β] (key : α → β) (xs : List α) : List α := sortedBy (compareOn key) xs

/-- An item and what comes after it, less what is equal to the item kept before it. -/
def keptFrom [BEq α] (x : α) : List α → List α
  | [] => [x]
  | y :: ys => if x == y then keptFrom x ys else x :: keptFrom y ys

def withoutRepeats [BEq α] : List α → List α
  | [] => []
  | x :: xs => keptFrom x xs

theorem perm_sortedBy (cmp : α → α → Ordering) (xs : List α) : (sortedBy cmp xs).Perm xs :=
  List.mergeSort_perm xs _

section

variable (cmp : α → α → Ordering) [Std.TransCmp cmp]

theorem isLE_total (a b : α) : ((cmp a b).isLE || (cmp b a).isLE) = true := by
  have hswap : cmp b a = (cmp a b).swap := Std.OrientedCmp.eq_swap
  rw [hswap]
  cases cmp a b <;> rfl

theorem pairwise_sortedBy (xs : List α) : (sortedBy cmp xs).Pairwise fun a b => (cmp a b).isLE :=
  List.pairwise_mergeSort (fun _ _ _ => Std.TransCmp.isLE_trans) (isLE_total cmp) xs

theorem sublist_sortedBy {xs ys : List α} (h : ys.Pairwise fun a b => (cmp a b).isLE)
    (hys : ys.Sublist xs) : ys.Sublist (sortedBy cmp xs) :=
  List.sublist_mergeSort (fun _ _ _ => Std.TransCmp.isLE_trans) (isLE_total cmp) h hys

end

section

variable [BEq α] [LawfulBEq α] {x y : α}

theorem mem_keptFrom {xs : List α} : y ∈ keptFrom x xs ↔ y = x ∨ y ∈ xs := by
  induction xs generalizing x with
  | nil => simp [keptFrom]
  | cons z xs ih =>
    rw [keptFrom]
    split
    · rename_i hxz
      obtain rfl := eq_of_beq hxz
      rw [ih, List.mem_cons, or_self_left]
    · rw [List.mem_cons, ih, List.mem_cons]

theorem mem_withoutRepeats {xs : List α} : y ∈ withoutRepeats xs ↔ y ∈ xs := by
  cases xs with
  | nil => rfl
  | cons x xs => rw [withoutRepeats, mem_keptFrom, List.mem_cons]

variable [Ord α] [Std.TransOrd α] [Std.LawfulEqOrd α]

theorem ascending_keptFrom {xs : List α} (h : (x :: xs).Pairwise fun a b => (compare a b).isLE) :
    (keptFrom x xs).Pairwise (compare · · = .lt) := by
  induction xs generalizing x with
  | nil => simp [keptFrom]
  | cons y xs ih =>
    obtain ⟨hx, hxs⟩ := List.pairwise_cons.1 h
    rw [keptFrom]
    split
    · apply ih
      exact h.sublist (.cons_cons x (.cons y (.refl xs)))
    · rename_i hne
      apply List.pairwise_cons.2 ⟨_, ih hxs⟩
      intro z hz
      have hxy : compare x y = .lt := by
        cases hc : compare x y with
        | lt => rfl
        | eq => exact absurd (Std.compare_eq_iff_eq.1 hc) (by simpa using hne)
        | gt => simpa [hc] using hx y List.mem_cons_self
      rcases mem_keptFrom.1 hz with rfl | hz
      · exact hxy
      · exact Std.TransCmp.lt_of_lt_of_isLE hxy ((List.pairwise_cons.1 hxs).1 z hz)

theorem ascending_withoutRepeats_sorted (xs : List α) :
    (withoutRepeats (sorted xs)).Pairwise (compare · · = .lt) := by
  have h := pairwise_sortedBy compare xs
  rw [sorted]
  cases hxs : sortedBy compare xs with
  | nil => exact .nil
  | cons x xs =>
    rw [hxs] at h
    exact ascending_keptFrom h

end

end Holdall.Sequence
