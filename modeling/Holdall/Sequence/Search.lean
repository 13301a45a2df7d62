namespace Holdall.Sequence

variable {α : Type}

/-- Looks between two indices for an element that compares as equal. `place x` says how `x` stands to
what is looked for. -/
def searchBetween (xs : Array α) (place : α → Ordering) (low high : Nat) : Option α :=
  if low < high then
    let middle := low + (high - low) / 2
    match xs[middle]? with
    | none => none
    | some x =>
      match place x with
      | .eq => some x
      | .lt => searchBetween xs place (middle + 1) high
      | .gt => searchBetween xs place low middle
  else none
termination_by high - low

def search? (xs : Array α) (place : α → Ordering) : Option α := searchBetween xs place 0 xs.size

theorem mem_of_searchBetween {xs : Array α} {place : α → Ordering} {low high : Nat} {x : α}
    (h : searchBetween xs place low high = some x) : x ∈ xs ∧ place x = .eq := by
  fun_induction searchBetween xs place low high with
  | case1 low high hlt middle hnone => exact absurd h nofun
  | case2 low high hlt middle y hy heq =>
    rw [← Option.some.inj h]
    exact ⟨Array.mem_of_getElem? hy, heq⟩
  | case3 low high hlt middle y hy hbelow ih => exact ih h
  | case4 low high hlt middle y hy habove ih => exact ih h
  | case5 low high hlt => exact absurd h nofun

theorem mem_of_search? {xs : Array α} {place : α → Ordering} {x : α} (h : search? xs place = some x) :
    x ∈ xs ∧ place x = .eq := mem_of_searchBetween h

/-- Whatever follows an element that is not below what is looked for is above it. -/
def Placed (xs : Array α) (place : α → Ordering) : Prop :=
  xs.toList.Pairwise fun x y => place x ≠ .lt → place y = .gt

namespace Placed

variable {xs : Array α} {place : α → Ordering} {low high i j : Nat} {x y : α}

theorem of_ascending {κ : Type} [Ord κ] [Std.TransOrd κ] {key : α → κ}
    (h : (xs.toList.map key).Pairwise (compare · · = .lt)) (k : κ) :
    Placed xs fun x => compare (key x) k := by
  refine (List.pairwise_map.1 h).imp ?_
  intro x y hxy hx
  have hswap : compare k (key x) = (compare (key x) k).swap := Std.OrientedCmp.eq_swap
  have hge : (compare k (key x)).isLE := by
    rw [hswap]
    cases hc : compare (key x) k <;> simp_all
  exact Std.OrientedCmp.gt_of_lt (Std.TransCmp.lt_of_isLE_of_lt hge hxy)

theorem above (h : Placed xs place) (hi : xs[i]? = some x) (hj : xs[j]? = some y) (hij : i < j)
    (hx : place x ≠ .lt) : place y = .gt := by
  obtain ⟨hi', rfl⟩ := Array.getElem?_eq_some_iff.1 hi
  obtain ⟨hj', rfl⟩ := Array.getElem?_eq_some_iff.1 hj
  exact List.pairwise_iff_getElem.1 h i j hi' hj' hij hx

/-- An element stands to what is looked for as its index to that of an element that compares as equal. -/
theorem place_eq_compare (h : Placed xs place) (hi : xs[i]? = some x) (hj : xs[j]? = some y)
    (hy : place y = .eq) : place x = compare i j := by
  rcases Nat.lt_trichotomy i j with hlt | rfl | hgt
  · rw [Nat.compare_eq_lt.2 hlt]
    refine Decidable.by_contra fun hx => ?_
    have habove := h.above hi hj hlt hx
    simp [hy] at habove
  · rw [hi, Option.some.injEq] at hj
    rw [hj, hy, Nat.compare_eq_eq.2 rfl]
  · rw [Nat.compare_eq_gt.2 hgt]
    exact h.above hj hi hgt (by simp [hy])

theorem searchBetween_eq_some (h : Placed xs place) (hhigh : high ≤ xs.size) (hlow : low ≤ i)
    (hi : i < high) (hget : xs[i]? = some x) (hx : place x = .eq) :
    searchBetween xs place low high = some x := by
  fun_induction searchBetween xs place low high with
  | case1 low high hlt middle hnone =>
    have hsize : xs.size ≤ middle := Array.getElem?_eq_none_iff.1 hnone
    omega
  | case2 low high hlt middle y hy heq =>
    rw [h.place_eq_compare hy hget hx, Nat.compare_eq_eq] at heq
    rw [← hy, heq, hget]
  | case3 low high hlt middle y hy hbelow ih =>
    rw [h.place_eq_compare hy hget hx, Nat.compare_eq_lt] at hbelow
    exact ih hhigh hbelow hi
  | case4 low high hlt middle y hy habove ih =>
    rw [h.place_eq_compare hy hget hx, Nat.compare_eq_gt] at habove
    exact ih (by omega) hlow habove
  | case5 low high hlt => omega

theorem search?_eq_some_iff (h : Placed xs place) :
    search? xs place = some x ↔ x ∈ xs ∧ place x = .eq := by
  constructor
  · exact mem_of_search?
  · rintro ⟨hx, heq⟩
    obtain ⟨i, hget⟩ := Array.getElem?_of_mem hx
    have hi : i < xs.size := (Array.getElem?_eq_some_iff.1 hget).1
    exact h.searchBetween_eq_some (Nat.le_refl _) (Nat.zero_le i) hi hget heq

end Placed

end Holdall.Sequence
