import Holdall.Proofs.Container.HashedMap
import Holdall.Proofs.Sequence.Distinct
import Mathlib.Tactic.TFAE

namespace Holdall

open Lineup Sequence

variable {α : Type} [BEq α] {xs ys : List α} {x : α} {p : α → Bool}

theorem Lineup.has_append (xs ys : List α) (x : α) : has (xs ++ ys) x = (has xs x || has ys x) :=
  List.any_append

variable [EquivBEq α]

theorem HashedSet.contains_ofList (xs : List α) (x : α) :
    (HashedSet.ofList xs).contains x = has xs x := by
  induction xs using List.reverseRecOn with
  | nil => rfl
  | append_singleton xs y ih =>
    have hput : HashedSet.ofList (xs ++ [y]) = (HashedSet.ofList xs).put y := List.foldl_concat ..
    have hrest : (HashedSet.ofList xs).table.contains x = has xs x := ih
    rw [hput, HashedSet.contains, HashedSet.put, HashedMap.contains_put, hrest, Bool.or_comm]
    simp [has]

namespace Sequence

theorem eq_nil_iff_has : xs = [] ↔ ∀ x, has xs x = false := by
  constructor
  · rintro rfl x
    rfl
  · intro h
    apply List.eq_nil_iff_forall_not_mem.2
    intro x hx
    exact Bool.false_ne_true ((h x).symm.trans (has_of_mem hx))

theorem forall_mem_iff_has (hp : Blind p) :
    (∀ x ∈ xs, p x = true) ↔ ∀ x, has xs x = true → p x = true := by
  constructor
  · intro h x hx
    obtain ⟨y, hy, hyx⟩ := List.any_eq_true.1 hx
    rw [← hp y x hyx]
    exact h y hy
  · intro h x hx
    exact h x (has_of_mem hx)

theorem containsAny_ofList (xs ys : List α) : containsAny (.ofList xs) ys = ys.any (has xs ·) := by
  simp only [containsAny, HashedSet.contains_ofList]

theorem containsAll_ofList (xs ys : List α) : containsAll (.ofList xs) ys = ys.all (has xs ·) := by
  simp only [containsAll, HashedSet.contains_ofList]

theorem containsAll_iff : containsAll (.ofList xs) ys = true ↔
    ∀ x, (has ys x && !has xs x) = false := by
  rw [containsAll_ofList, List.all_eq_true, forall_mem_iff_has (blind_has xs)]
  apply forall_congr'
  intro x
  cases has xs x <;> cases has ys x <;> decide

variable [Hashable α] [LawfulHashable α]

theorem has_union (xs ys : List α) (x : α) : has (union xs ys) x = (has xs x || has ys x) := by
  rw [union_eq, has_firsts, has_append]

theorem has_intersection (xs ys : List α) (x : α) :
    has (intersection xs ys) x = (has xs x && has ys x) := by
  rw [intersection_eq, has_filter (blind_has ys), has_firsts]

theorem has_difference (xs ys : List α) (x : α) :
    has (difference xs ys) x = (has xs x && !has ys x) := by
  rw [difference_eq, has_filter (blind_has ys).not, has_firsts]

theorem has_symmetricDifference (xs ys : List α) (x : α) :
    has (symmetricDifference xs ys) x = (has xs x ^^ has ys x) := by
  rw [symmetricDifference_eq, has_append, has_difference, has_difference]
  cases has xs x <;> cases has ys x <;> rfl

theorem isDisjoint_eq (xs ys : List α) : isDisjoint xs ys = !ys.any (has xs ·) := by
  simp only [isDisjoint, contains_ofList_eq]

theorem isDisjoint_iff : isDisjoint xs ys = true ↔ ∀ x, (has xs x && has ys x) = false := by
  rw [isDisjoint_eq, List.not_any_eq_all_not, List.all_eq_true, forall_mem_iff_has (blind_has xs).not]
  apply forall_congr'
  intro x
  cases has xs x <;> cases has ys x <;> decide

theorem difference_of_isDisjoint (h : isDisjoint xs ys = true) : difference xs ys = firsts xs := by
  rw [difference_eq, List.filter_eq_self]
  intro x hx
  have hapart := isDisjoint_iff.1 h x
  rw [← has_firsts xs, has_of_mem hx, Bool.true_and] at hapart
  rw [hapart]
  rfl

theorem isDisjoint_comm (xs ys : List α) : isDisjoint xs ys = isDisjoint ys xs := by
  rw [Bool.eq_iff_iff, isDisjoint_iff, isDisjoint_iff]
  simp only [Bool.and_comm]

theorem union_of_isDisjoint (h : isDisjoint xs ys = true) :
    union xs ys = symmetricDifference xs ys := by
  rw [symmetricDifference_eq, difference_of_isDisjoint h, union_eq, firsts_append, ← difference_eq]

/-- Nothing in common is an empty intersection on either side, and that none of the items of one sequence
is in the set of the other. All items are in a set where the difference that it leaves is empty. The
union is the items of one sequence only, in one order or another, where nothing is in common. -/
theorem predicates_agree (xs ys : List α) :
    (isDisjoint xs ys = true ↔ ∀ x ∈ xs, ∀ y ∈ ys, (x == y) = false) ∧
    (isDisjoint xs ys = true ↔ intersection xs ys = []) ∧
    isDisjoint xs ys = isDisjoint ys xs ∧
    isDisjoint xs ys = !containsAny (.ofList xs) ys ∧
    (containsAll (.ofList xs) ys = true ↔ ∀ y ∈ ys, ∃ x ∈ xs, (x == y) = true) ∧
    (containsAll (.ofList xs) ys = true ↔ difference ys xs = []) ∧
    [isDisjoint xs ys = true, union xs ys = symmetricDifference xs ys,
      (union xs ys).Perm (symmetricDifference xs ys),
      ∀ x, has (union xs ys) x = has (symmetricDifference xs ys) x].TFAE := by
  refine ⟨?_, ?_, isDisjoint_comm xs ys, ?_, ?_, ?_, ?_⟩
  · rw [isDisjoint_eq, Bool.not_eq_true', List.any_eq_false]
    simp only [Bool.not_eq_true, not_has_iff]
    exact ⟨fun h x hx y hy ↦ h y hy x hx, fun h y hy x hx ↦ h x hx y hy⟩
  · rw [isDisjoint_iff, eq_nil_iff_has]
    simp only [has_intersection]
  · rw [isDisjoint_eq, containsAny_ofList]
  · rw [containsAll_ofList, List.all_eq_true]
    simp only [has, List.any_eq_true]
  · rw [containsAll_iff, eq_nil_iff_has]
    simp only [has_difference]
  · tfae_have 1 → 2 := union_of_isDisjoint
    tfae_have 2 → 3 := fun h ↦ h ▸ .refl _
    tfae_have 3 → 4 := fun h x ↦ h.any_eq
    tfae_have 4 → 1 := by
      intro h
      apply isDisjoint_iff.2
      intro x
      have hx := h x
      rw [has_union, has_symmetricDifference] at hx
      revert hx
      cases has xs x <;> cases has ys x <;> decide
    tfae_finish

theorem predicates_agree_folded : EquivBEq Item ∧ LawfulHashable Item ∧
    let xs : List Item := [.folded "a", .int 1, .folded "a"]
    let ys : List Item := [.folded "A"]
    let zs : List Item := [.folded "b", .int 2]
    isDisjoint xs ys = false ∧ intersection xs ys ≠ [] ∧ containsAny (.ofList xs) ys = true ∧
    containsAll (.ofList xs) ys = true ∧ difference ys xs = [] ∧
    ¬(union xs ys).Perm (symmetricDifference xs ys) ∧
    isDisjoint xs zs = true ∧ isDisjoint zs xs = true ∧ intersection xs zs = [] ∧
    (union xs zs).Perm (symmetricDifference xs zs) := by
  refine ⟨inferInstance, inferInstance, ?_⟩
  intro xs ys zs
  obtain ⟨hmeet, hinter, -, hany, hall, hdiff, hunion⟩ := predicates_agree xs ys
  obtain ⟨hapart, hinter', hcomm, -, -, -, hunion'⟩ := predicates_agree xs zs
  have hfalse : isDisjoint xs ys = false := by
    rw [Bool.eq_false_iff]
    intro h
    have hsame : (Item.folded "a" == Item.folded "A") = false :=
      hmeet.1 h _ List.mem_cons_self _ List.mem_cons_self
    exact absurd hsame (by decide)
  have htrue : isDisjoint xs zs = true := hapart.2 (by simp only [xs, zs]; decide)
  have hcontained : containsAll (.ofList xs) ys = true := hall.2 (by simp only [xs, ys]; decide)
  refine ⟨hfalse, ?_, ?_, hcontained, hdiff.1 hcontained, ?_, htrue, hcomm ▸ htrue, hinter'.1 htrue,
    (hunion'.out 0 2).1 htrue⟩
  · intro hnil
    rw [hinter.2 hnil] at hfalse
    exact nomatch hfalse
  · rw [hfalse] at hany
    simpa using hany.symm
  · intro hperm
    have hboth : isDisjoint xs ys = true := (hunion.out 2 0).1 hperm
    rw [hfalse] at hboth
    exact nomatch hboth

end Sequence

end Holdall
