import Holdall.Container.Series
import Holdall.Proofs.OrderedMap.Traversal
import Holdall.Proofs.Sequence.Grouping

namespace Holdall

open Association Lineup Sequence

variable {α : Type} [BEq α] [EquivBEq α] [Hashable α] [LawfulHashable α] {xs : List α} {x : α}

theorem Sequence.fresh_insert {met : Std.HashSet α} (h : met.contains x = true) (xs : List α) :
    fresh (met.insert x) xs = fresh met xs := by
  rw [fresh_eq, fresh_eq]
  refine List.filter_congr fun y _ ↦ ?_
  rw [Std.HashSet.contains_insert]
  cases hxy : x == y with
  | false => rfl
  | true => rw [← Std.HashSet.contains_congr hxy, h]; rfl

namespace Series

theorem run_filterAuxM_meet (xs kept : List α) (met : Std.HashSet α) :
    ((xs.filterAuxM meet kept).run met).1 = (fresh met xs).reverse ++ kept := by
  induction xs generalizing kept met with
  | nil => rfl
  | cons x xs ih =>
    rw [List.filterAuxM, StateT.run_bind]
    change ((xs.filterAuxM meet (cond (!met.contains x) (x :: kept) kept)).run (met.insert x)).1 = _
    rw [ih, fresh]
    cases hx : met.contains x with
    | true => rw [fresh_insert hx]; rfl
    | false => rw [if_neg Bool.false_ne_true, List.reverse_cons, List.append_assoc]; rfl

theorem items_distinct (s : Series α) : s.distinct.items = Sequence.distinct s.items := by
  change ((s.items.filterAuxM meet []).run ∅).1.reverse = _
  rw [run_filterAuxM_meet, List.append_nil, List.reverse_reverse, Sequence.distinct]

end Series

theorem OrderedSet.shows_ofList (xs : List α) : (OrderedSet.ofList xs).Shows (firsts xs) := by
  rw [← foldl_add_nil]
  exact OrderedSet.shows_empty.extend xs

omit [EquivBEq α] [Hashable α] [LawfulHashable α] in
theorem Association.keys_insert {V : Type} (s : List (α × V)) (k : α) (v : V) :
    (insert .insertion s k v).map Prod.fst = add (s.map Prod.fst) k := by
  rw [add, has_keys]
  cases hk : hasKey s k with
  | true => rw [insert_of_hasKey hk, keys_alter, if_pos rfl]
  | false => rw [insert_of_absent hk, List.map_append, if_neg Bool.false_ne_true, List.map_singleton]

omit [Hashable α] [LawfulHashable α] in
theorem Association.keys_overlay_nil {V : Type} (pairs : List (α × V)) :
    (overlay [] pairs).map Prod.fst = firsts (pairs.map Prod.fst) := by
  induction pairs using List.reverseRecOn with
  | nil => rfl
  | append_singleton pairs e ih =>
    rw [overlay, List.foldl_concat, keys_insert, List.map_append, List.map_singleton, firsts_concat,
      ← ih, overlay]

theorem OrderedMap.shows_ofList {V : Type} (pairs : List (α × V)) :
    (OrderedMap.ofList pairs).Shows .insertion (overlay [] pairs) :=
  (OrderedMap.shows_empty .insertion).extend pairs

namespace Sequence

/-- All ways to drop repeats come to the same items. A set that is mapped drops the repeats among what
its items have become. -/
theorem first_occurrences_agree (xs : List α) :
    distinct xs = firsts xs ∧
    union xs [] = distinct xs ∧
    (Series.mk xs).distinct.items = distinct xs ∧
    (let set := OrderedSet.ofList xs
     set.items = distinct xs ∧
     Traversal.Sized OrderedMap.PartCursor.next? OrderedMap.PartCursor.remaining
       set.entries.keyCursor (distinct xs) ∧
     ∀ {β : Type} [BEq β] [EquivBEq β] [Hashable β] [LawfulHashable β] (f : α → β),
       (set.map f).items = distinct ((distinct xs).map f)) ∧
    (frequencies xs).keys = distinct xs ∧
    (groupBy id xs).keys = distinct xs ∧
    ∀ {V : Type} (pairs : List (α × V)), pairs.map Prod.fst = xs →
      (OrderedMap.ofList pairs).keys = distinct xs := by
  have hset := OrderedSet.shows_ofList xs
  rw [distinct_eq xs]
  refine ⟨rfl, ?_, ?_, ⟨hset.items, ?_, ?_⟩, ?_, ?_, ?_⟩
  · rw [union_eq, List.append_nil]
  · rw [Series.items_distinct, distinct_eq]
  · have hkeys := (OrderedMap.Shows.traversed hset).keys
    rwa [keys_entries] at hkeys
  · intro β _ _ _ _ f
    rw [OrderedSet.map, hset.items, (OrderedSet.shows_ofList _).items, distinct_eq]
  · rw [OrderedMap.keys, (shows_frequencies xs).toList, keys_rows, List.map_id]
  · rw [OrderedMap.keys, (shows_groupBy id xs).toList, keys_rows, List.map_id]
  · rintro V pairs rfl
    rw [OrderedMap.keys, (OrderedMap.shows_ofList pairs).toList, keys_overlay_nil]

theorem first_occurrences_agree_folded : EquivBEq Item ∧ LawfulHashable Item ∧
    let xs : List Item := [.folded "a", .text "b", .folded "A", .text "b"]
    let kept : List Item := [.folded "a", .text "b"]
    let pairs := [(.folded "a", 1), (.text "b", 2), (.folded "A", 3), (.text "b", 4)]
    distinct xs = kept ∧ union xs [] = kept ∧ (Series.mk xs).distinct.items = kept ∧
    (OrderedSet.ofList xs).items = kept ∧
    ((OrderedSet.ofList xs).map fun _ ↦ Item.int 1).items = [.int 1] ∧
    (frequencies xs).keys = kept ∧ (groupBy id xs).keys = kept ∧
    pairs.map Prod.fst = xs ∧ (OrderedMap.ofList pairs).keys = kept := by
  refine ⟨inferInstance, inferInstance, ?_⟩
  intro xs kept pairs
  obtain ⟨hdistinct, hunion, hseries, ⟨hset, -, hmap⟩, hcounted, hgrouped, hpaired⟩ :=
    first_occurrences_agree xs
  have hkept : distinct xs = kept := hdistinct.trans rfl
  rw [hkept] at hunion hseries hset hmap hcounted hgrouped hpaired
  exact ⟨hkept, hunion, hseries, hset, (hmap _).trans ((distinct_eq _).trans rfl), hcounted, hgrouped,
    rfl, hpaired pairs rfl⟩

end Sequence

end Holdall
