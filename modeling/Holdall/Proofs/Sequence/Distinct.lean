import Holdall.Proofs.Container.OrderedSet
import Holdall.Sequence.Distinct
import Mathlib.Data.List.Infix

namespace Holdall.Sequence

open Lineup

variable {α : Type} [BEq α] {xs ys : List α} {x : α} {p : α → Bool}

/-- The items of `xs` before which no equal one stands. -/
def firsts (xs : List α) : List α :=
  ((xs.zip xs.inits).filter fun (x, before) ↦ !has before x).map Prod.fst

theorem firsts_cons (x : α) (xs : List α) :
    firsts (x :: xs) = x :: (firsts xs).filter fun y ↦ !(x == y) := by
  have hhead : has [] x = false := rfl
  have htail : ((xs.zip (xs.inits.map (x :: ·))).filter fun (y, before) ↦ !has before y) =
      (((xs.zip xs.inits).filter fun (y, before) ↦ !has before y).filter fun (y, _) ↦ !(x == y)).map
        (Prod.map id (x :: ·)) := by
    rw [List.zip_map_right, List.filter_map, List.filter_filter]
    refine congrArg _ (List.filter_congr fun e _ ↦ ?_)
    simp [has]
  rw [firsts, List.inits_cons, List.zip_cons_cons, List.filter_cons_of_pos (by simp [hhead]), htail,
    List.map_cons, List.map_map, firsts, List.filter_map]
  rfl

theorem distinct_firsts (xs : List α) : Distinct (firsts xs) := by
  induction xs with
  | nil => exact .nil
  | cons x xs ih =>
    rw [firsts_cons]
    refine List.pairwise_cons.2 ⟨?_, ih.sublist List.filter_sublist⟩
    intro y hy
    simpa using List.of_mem_filter hy

theorem firsts_append (xs ys : List α) :
    firsts (xs ++ ys) = firsts xs ++ (firsts ys).filter fun y ↦ !has xs y := by
  induction xs with
  | nil => exact (List.filter_eq_self.2 fun _ _ ↦ rfl).symm
  | cons x xs ih =>
    have hcons : ∀ y, (!has (x :: xs) y) = ((!(x == y)) && !has xs y) := by simp [has]
    simp only [List.cons_append, firsts_cons, ih, List.filter_append, List.filter_filter, hcons]

/-- A choice of items that does not tell equal ones apart. -/
def Blind (p : α → Bool) : Prop := ∀ x y, (x == y) = true → p x = p y

theorem Blind.not (hp : Blind p) : Blind fun x ↦ !p x := by
  intro x y hxy
  exact congrArg (!·) (hp x y hxy)

theorem Blind.filter_ne (hp : Blind p) (hx : p x = false) (xs : List α) :
    (xs.filter fun y ↦ !(x == y)).filter p = xs.filter p := by
  rw [List.filter_filter]
  refine List.filter_congr fun y _ ↦ ?_
  cases hxy : x == y with
  | false => exact Bool.and_true (p y)
  | true => rw [← hp x y hxy, hx, Bool.false_and]

theorem has_filter (hp : Blind p) (xs : List α) (x : α) :
    has (xs.filter p) x = (has xs x && p x) := by
  rw [has, has, List.any_filter, List.and_any_distrib_right]
  congr 1
  funext y
  cases hyx : y == x with
  | false => exact Bool.and_false (p y)
  | true => rw [hp y x hyx, Bool.and_comm]

theorem firsts_filter (hp : Blind p) (xs : List α) : firsts (xs.filter p) = (firsts xs).filter p := by
  induction xs with
  | nil => rfl
  | cons x xs ih =>
    rw [firsts_cons]
    cases hx : p x with
    | true =>
      rw [List.filter_cons_of_pos hx, List.filter_cons_of_pos hx, firsts_cons, ih, List.filter_comm]
    | false =>
      rw [List.filter_cons_of_neg (by simp [hx]), List.filter_cons_of_neg (by simp [hx]), ih,
        hp.filter_ne hx]

variable [EquivBEq α]

theorem blind_has (xs : List α) : Blind (has xs) := by
  intro x y hxy
  simp only [has, BEq.congr_right hxy]

theorem blind_beq (x : α) : Blind (· == x) := fun _ _ ↦ BEq.congr_left

theorem has_of_mem (h : x ∈ xs) : has xs x = true := List.any_eq_true.2 ⟨x, h, BEq.rfl⟩

theorem has_firsts (xs : List α) (x : α) : has (firsts xs) x = has xs x := by
  have hnil : ∀ ys : List α, firsts ys = [] ↔ ys = [] := by
    intro ys
    cases ys with
    | nil => exact Iff.rfl
    | cons y ys => simp [firsts_cons]
  have habsent : ∀ ys : List α, has ys x = false ↔ ys.filter (· == x) = [] := by simp [has]
  rw [Bool.eq_iff_iff, ← not_iff_not, Bool.not_eq_true, Bool.not_eq_true, habsent, habsent,
    ← firsts_filter (blind_beq x), hnil]

theorem foldl_add (xs ys : List α) : ys.foldl add xs = xs ++ (firsts ys).filter fun y ↦ !has xs y := by
  induction ys generalizing xs with
  | nil => exact (List.append_nil xs).symm
  | cons y ys ih =>
    rw [List.foldl_cons, ih, firsts_cons, add]
    cases hy : has xs y with
    | true =>
      have hne := (blind_has xs).not.filter_ne (x := y) (by simp [hy]) (firsts ys)
      rw [if_pos rfl, List.filter_cons_of_neg (by simp [hy]), hne]
    | false =>
      have hhas : ∀ z, (!has (xs ++ [y]) z) = (!has xs z && !(y == z)) := by simp [has]
      rw [if_neg Bool.false_ne_true, List.filter_cons_of_pos (by simp [hy]), List.filter_filter,
        List.append_assoc]
      simp only [hhas]
      rfl

theorem foldl_add_nil (xs : List α) : xs.foldl add [] = firsts xs := by
  rw [foldl_add, List.nil_append]
  exact List.filter_eq_self.2 fun _ _ ↦ rfl

theorem firsts_concat (xs : List α) (x : α) : firsts (xs ++ [x]) = add (firsts xs) x := by
  rw [← foldl_add_nil, List.foldl_concat, foldl_add_nil]

variable [Hashable α] [LawfulHashable α]

theorem blind_contains (seen : Std.HashSet α) : Blind (seen.contains ·) :=
  fun _ _ ↦ Std.HashSet.contains_congr

theorem fresh_eq (seen : Std.HashSet α) (xs : List α) :
    fresh seen xs = (firsts xs).filter fun x ↦ !seen.contains x := by
  induction xs generalizing seen with
  | nil => rfl
  | cons x xs ih =>
    rw [fresh, firsts_cons]
    cases hx : seen.contains x with
    | true =>
      have hne := (blind_contains seen).not.filter_ne (x := x) (by simp [hx]) (firsts xs)
      rw [if_pos rfl, ih, List.filter_cons_of_neg (by simp [hx]), hne]
    | false =>
      rw [if_neg nofun, ih, List.filter_cons_of_pos (by simp [hx]), List.filter_filter]
      refine congrArg _ (List.filter_congr fun y _ ↦ ?_)
      rw [Std.HashSet.contains_insert, Bool.not_or, Bool.and_comm]

theorem fresh_empty (xs : List α) : fresh ∅ xs = firsts xs := by
  rw [fresh_eq, List.filter_eq_self]
  simp

theorem distinct_fresh (xs : List α) : Distinct (fresh ∅ xs) := by
  rw [fresh_empty]
  exact distinct_firsts xs

theorem contains_ofList_eq (xs : List α) (x : α) : (Std.HashSet.ofList xs).contains x = has xs x := by
  rw [Std.HashSet.contains_ofList, List.contains_eq_any_beq, has]
  refine congrArg _ (funext fun y ↦ BEq.comm)

theorem distinct_eq (xs : List α) : distinct xs = firsts xs := fresh_empty xs

theorem union_eq (xs ys : List α) : union xs ys = firsts (xs ++ ys) := fresh_empty _

theorem intersection_eq (xs ys : List α) : intersection xs ys = (firsts xs).filter (has ys ·) := by
  simp only [intersection, contains_ofList_eq, fresh_empty]
  exact firsts_filter (blind_has ys) xs

theorem difference_eq (xs ys : List α) : difference xs ys = (firsts xs).filter fun x ↦ !has ys x := by
  simp only [difference, contains_ofList_eq, fresh_empty]
  exact firsts_filter (blind_has ys).not xs

theorem symmetricDifference_eq (xs ys : List α) :
    symmetricDifference xs ys = difference xs ys ++ difference ys xs := by
  simp only [symmetricDifference, contains_ofList_eq, fresh_empty, firsts_append]
  rw [firsts_filter (blind_has ys).not, firsts_filter (blind_has xs).not, ← difference_eq,
    ← difference_eq]
  refine congrArg _ (List.filter_eq_self.2 ?_)
  intro y hy
  rw [difference_eq] at hy
  have habsent : has xs y = false := by simpa using List.of_mem_filter hy
  rw [has_filter (blind_has ys).not, habsent]
  rfl

/-- Each of the sets made of two sequences has no two equal items, and has of equal ones the first. A
union is what is distinct in one sequence behind the other; intersection and difference divide what is
distinct in the first sequence; and the items of one sequence only are the two differences in turn. -/
theorem set_algebra (xs ys : List α) :
    (∀ zs : List α, distinct zs = firsts zs ∧ Distinct (distinct zs)) ∧
    union xs ys = distinct (xs ++ ys) ∧
    intersection xs ys = (distinct xs).filter (has ys ·) ∧
    difference xs ys = (distinct xs).filter (fun x ↦ !has ys x) ∧
    (intersection xs ys ++ difference xs ys).Perm (distinct xs) ∧
    symmetricDifference xs ys = difference xs ys ++ difference ys xs ∧
    ∀ zs ∈ [union xs ys, intersection xs ys, difference xs ys, symmetricDifference xs ys],
      Distinct zs := by
  refine ⟨?_, ?_, ?_, ?_, ?_, symmetricDifference_eq xs ys, ?_⟩
  · intro zs
    exact ⟨distinct_eq zs, distinct_fresh zs⟩
  · rw [union_eq, distinct_eq]
  · rw [intersection_eq, distinct_eq]
  · rw [difference_eq, distinct_eq]
  · rw [intersection_eq, difference_eq, distinct_eq]
    exact List.filter_append_perm (has ys ·) (firsts xs)
  · simp only [List.forall_mem_cons]
    exact ⟨distinct_fresh _, distinct_fresh _, distinct_fresh _, distinct_fresh _, nofun⟩

theorem set_algebra_folded : EquivBEq Item ∧ LawfulHashable Item ∧
    let xs : List Item := [.folded "a", .text "b", .folded "A", .int 1]
    let ys : List Item := [.text "c", .folded "A", .text "c"]
    distinct xs = [.folded "a", .text "b", .int 1] ∧
    union xs ys = distinct (xs ++ ys) ∧
    intersection xs ys = [.folded "a"] ∧
    difference xs ys = [.text "b", .int 1] ∧
    symmetricDifference xs ys = [.text "b", .int 1] ++ [.text "c"] := by
  refine ⟨inferInstance, inferInstance, ?_⟩
  intro xs ys
  obtain ⟨hdistinct, hunion, hinter, hdiff, -, hsymm, -⟩ := set_algebra xs ys
  have hback := (set_algebra ys xs).2.2.2.1
  have hxs : distinct xs = [.folded "a", .text "b", .int 1] := (hdistinct xs).1.trans rfl
  have hys : distinct ys = [.text "c", .folded "A"] := (hdistinct ys).1.trans rfl
  rw [hxs] at hinter hdiff
  rw [hys] at hback
  refine ⟨hxs, hunion, hinter.trans rfl, hdiff.trans rfl, ?_⟩
  rw [hsymm, hdiff, hback]
  rfl

end Holdall.Sequence
