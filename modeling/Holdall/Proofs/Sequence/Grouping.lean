import Holdall.Proofs.Overlay
import Holdall.Proofs.Sequence.Distinct
import Holdall.Sequence.Grouping
import Mathlib.Algebra.GroupWithZero.Nat

namespace Holdall

variable {K V α : Type} [BEq K]

namespace Association

variable {s : List (K × V)} {k : K}

def amend (s : List (K × V)) (k : K) (first : V) (f : V → V) : List (K × V) :=
  if hasKey s k then alter s k f else s ++ [(k, first)]

theorem amend_of_hasKey (h : hasKey s k = true) (first : V) (f : V → V) :
    amend s k first f = alter s k f := if_pos h

theorem amend_of_absent (h : hasKey s k = false) (first : V) (f : V → V) :
    amend s k first f = s ++ [(k, first)] := by
  rw [amend, h]
  rfl

variable [EquivBEq K]

theorem Distinct.flatten_amend {s : List (K × List α)} (h : Distinct s) (k : K) (x : α) :
    ((amend s k [x] (· ++ [x])).map Prod.snd).flatten.Perm ((s.map Prod.snd).flatten ++ [x]) := by
  cases hk : hasKey s k with
  | false =>
    rw [amend_of_absent hk, List.map_append, List.flatten_append]
    exact .refl _
  | true =>
    obtain ⟨e, he, hek⟩ := exists_mem_of_hasKey hk
    obtain ⟨l, r, rfl⟩ := List.append_of_mem he
    rw [amend_of_hasKey hk, h.alter_split hek]
    simp only [List.map_append, List.map_cons, List.flatten_append, List.flatten_cons,
      List.append_assoc]
    exact (List.perm_append_comm.append_left _).append_left _

end Association

open Association in
theorem OrderedMap.Shows.amend [EquivBEq K] [Hashable K] [LawfulHashable K] {m : OrderedMap K V}
    {es : List (K × V)} (h : m.Shows .insertion es) (k : K) (first : V) (f : V → V) :
    (Sequence.amend m k first f).Shows .insertion (amend es k first f) := by
  obtain ⟨hvalue, hshows⟩ := h.modify k f
  have hmodify : m.modify k f = (value? es k, (m.modify k f).2) := Prod.ext hvalue rfl
  rw [Sequence.amend, hmodify]
  cases hk : hasKey es k with
  | false =>
    have hinsert := (hshows.insert k first).2
    rw [value?_of_absent hk, amend_of_absent hk]
    rwa [Association.use, alter_of_absent f hk, insert_of_absent hk] at hinsert
  | true =>
    obtain ⟨v, hv⟩ := Option.isSome_iff_exists.1 ((isSome_value? es k).trans hk)
    rw [hv, amend_of_hasKey hk]
    exact hshows

namespace Sequence

open Association Lineup

/-- For each key, in the order in which keys first come up, the value of the items that have it. -/
def rows (key : α → K) (value : List α → V) (xs : List α) : List (K × V) :=
  (firsts (xs.map key)).map fun k ↦ (k, value (xs.filter (key · == k)))

theorem filter_eq_nil_iff {key : α → K} {xs : List α} {k : K} :
    xs.filter (key · == k) = [] ↔ has (xs.map key) k = false := by simp [has]

theorem keys_rows (key : α → K) (value : List α → V) (xs : List α) :
    (rows key value xs).map Prod.fst = firsts (xs.map key) := by
  rw [rows, List.map_map]
  exact List.map_id' _

theorem distinct_rows (key : α → K) (value : List α → V) (xs : List α) :
    Association.Distinct (rows key value xs) := by
  rw [Association.Distinct, keys_rows]
  exact distinct_firsts (xs.map key)

variable [EquivBEq K]

theorem hasKey_rows (key : α → K) (value : List α → V) (xs : List α) (k : K) :
    hasKey (rows key value xs) k = has (xs.map key) k := by
  rw [← has_firsts, ← keys_rows key value, has_keys]

theorem value?_rows (key : α → K) (value : List α → V) (xs : List α) (k : K) :
    value? (rows key value xs) k =
      if has (xs.map key) k then some (value (xs.filter (key · == k))) else none := by
  cases hk : has (xs.map key) k with
  | false => exact value?_of_absent ((hasKey_rows key value xs k).trans hk)
  | true =>
    obtain ⟨e, he, hek⟩ := exists_mem_of_hasKey ((hasKey_rows key value xs k).trans hk)
    obtain ⟨k', -, rfl⟩ := List.mem_map.1 he
    rw [value?, (distinct_rows key value xs).lookup?_eq_some.2 ⟨he, hek⟩, if_pos rfl]
    simp only [Option.map_some, BEq.congr_right hek]

theorem rows_concat (key : α → K) (value : List α → V) (xs : List α) (x : α) (grow : V → V)
    (h : ∀ ys, grow (value ys) = value (ys ++ [x])) :
    rows key value (xs ++ [x]) =
      Association.amend (rows key value xs) (key x) (value [x]) grow := by
  rw [rows, List.map_append, List.map_singleton, firsts_concat, add, has_firsts]
  cases hk : has (xs.map key) (key x) with
  | true =>
    rw [amend_of_hasKey ((hasKey_rows key value xs _).trans hk), if_pos rfl, rows, alter, List.map_map]
    refine List.map_congr_left fun k _ ↦ ?_
    rw [Function.comp_apply, List.filter_append, List.filter_singleton, BEq.comm (a := k)]
    cases key x == k with
    | true => exact congrArg (k, ·) (h _).symm
    | false => exact congrArg (k, value ·) (List.append_nil _)
  | false =>
    have hothers : ∀ k ∈ firsts (xs.map key), (key x == k) = false := by
      intro k hk'
      rw [← has_firsts] at hk
      rw [BEq.comm]
      exact not_has_iff.1 hk k hk'
    rw [amend_of_absent ((hasKey_rows key value xs _).trans hk), if_neg Bool.false_ne_true, rows,
      List.map_append, List.map_singleton, List.filter_append, filter_eq_nil_iff.2 hk,
      List.filter_singleton, BEq.rfl]
    refine congrArg (· ++ _) (List.map_congr_left fun k hk' ↦ ?_)
    rw [List.filter_append, List.filter_singleton, hothers k hk']
    exact congrArg (k, value ·) (List.append_nil _)

theorem flatten_rows (key : α → K) (xs : List α) :
    ((rows key id xs).map Prod.snd).flatten.Perm xs := by
  induction xs using List.reverseRecOn with
  | nil => exact .nil
  | append_singleton xs x ih =>
    rw [rows_concat key id xs x (· ++ [x]) fun _ ↦ rfl]
    exact ((distinct_rows key id xs).flatten_amend (key x) x).trans (ih.append_right [x])

theorem nil_notMem_rows (key : α → K) (xs : List α) : [] ∉ (rows key id xs).map Prod.snd := by
  intro hnil
  rw [rows, List.map_map, List.mem_map] at hnil
  obtain ⟨k, hk, hnone⟩ := hnil
  have hin : has (xs.map key) k = true := by
    rw [← has_firsts]
    exact has_of_mem hk
  rw [filter_eq_nil_iff.1 hnone] at hin
  exact absurd hin Bool.false_ne_true

variable [Hashable K] [LawfulHashable K]

theorem shows_rows (key : α → K) (value : List α → V) (grow : α → V → V)
    (h : ∀ x ys, grow x (value ys) = value (ys ++ [x])) (xs : List α) :
    (xs.foldl (fun m x ↦ amend m (key x) (value [x]) (grow x)) .empty).Shows .insertion
      (rows key value xs) := by
  induction xs using List.reverseRecOn with
  | nil => exact OrderedMap.shows_empty .insertion
  | append_singleton xs x ih =>
    rw [List.foldl_concat, rows_concat key value xs x (grow x) (h x)]
    exact ih.amend (key x) (value [x]) (grow x)

theorem shows_groupBy (key : α → K) (xs : List α) :
    (groupBy key xs).Shows .insertion (rows key id xs) :=
  shows_rows key id (fun x ys ↦ ys ++ [x]) (fun _ _ ↦ rfl) xs

theorem shows_frequencies (xs : List K) :
    (frequencies xs).Shows .insertion (rows id List.length xs) :=
  shows_rows id List.length (fun _ n ↦ n + 1) (fun _ _ ↦ by simp) xs

/-- Each key has the items that have it, in the order of the sequence, and the groups stand in the order
in which their keys first come up. No item is lost and none is in two groups. Counting items counts
those of each group. -/
theorem groupBy_partitions (key : α → K) (xs : List α) :
    let groups := groupBy key xs
    groups.keys = distinct (xs.map key) ∧ distinct (xs.map key) = firsts (xs.map key) ∧
    groups.toList = groups.keys.map (fun k ↦ (k, xs.filter (key · == k))) ∧
    (∀ k, groups.peek? k = if has (xs.map key) k then some (xs.filter (key · == k)) else none) ∧
    [] ∉ groups.values ∧
    (groups.values.map List.length).sum = xs.length ∧ groups.values.flatten.Perm xs ∧
    ∀ ks : List K,
      (frequencies ks).toList = (groupBy id ks).toList.map fun e ↦ (e.1, e.2.length) := by
  intro groups
  have hgroups := shows_groupBy key xs
  have hkeys : groups.keys = firsts (xs.map key) := by
    rw [OrderedMap.keys, hgroups.toList, keys_rows]
  have hperm : groups.values.flatten.Perm xs := by
    rw [OrderedMap.values, hgroups.toList]
    exact flatten_rows key xs
  refine ⟨?_, distinct_eq _, ?_, ?_, ?_, ?_, hperm, ?_⟩
  · rw [hkeys, distinct_eq]
  · rw [hkeys]
    exact hgroups.toList
  · intro k
    rw [hgroups.peek? k]
    exact value?_rows key id xs k
  · rw [OrderedMap.values, hgroups.toList]
    exact nil_notMem_rows key xs
  · rw [← List.length_flatten, hperm.length_eq]
  · intro ks
    rw [(shows_frequencies ks).toList, (shows_groupBy id ks).toList, rows, rows, List.map_map]
    rfl

theorem groupBy_partitions_folded : EquivBEq Item ∧ LawfulHashable Item ∧
    let xs : List (ℕ × Item) := [(1, .folded "a"), (2, .int 7), (3, .folded "A")]
    let groups := groupBy Prod.snd xs
    groups.toList = [(.folded "a", [(1, .folded "a"), (3, .folded "A")]), (.int 7, [(2, .int 7)])] ∧
    groups.peek? (.folded "A") = some [(1, .folded "a"), (3, .folded "A")] ∧
    (groups.values.map List.length).sum = 3 ∧ groups.values.flatten.Perm xs ∧
    (frequencies (xs.map Prod.snd)).toList = [(.folded "a", 2), (.int 7, 1)] := by
  refine ⟨inferInstance, inferInstance, ?_⟩
  intro xs groups
  obtain ⟨hkeys, hfirsts, hlist, hpeek, -, hsum, hperm, hcount⟩ := groupBy_partitions Prod.snd xs
  obtain ⟨hkeys', hfirsts', hlist', -⟩ := groupBy_partitions id (xs.map Prod.snd)
  rw [hkeys, hfirsts] at hlist
  rw [hkeys', hfirsts'] at hlist'
  refine ⟨hlist.trans rfl, (hpeek _).trans rfl, hsum, hperm, ?_⟩
  rw [hcount, hlist']
  rfl

end Sequence

end Holdall
