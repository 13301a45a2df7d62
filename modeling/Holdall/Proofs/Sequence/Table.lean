import Holdall.Proofs.Container.HashedMap
import Holdall.Proofs.Sequence.FirstOccurrence
import Holdall.Sequence.Table

namespace Holdall

variable {K V : Type} [BEq K]

namespace Association

variable {s t : List (K × V)} {k : K} {v : V}

/-- The last entry for a key has the value `v`. -/
def LastFor (s : List (K × V)) (k : K) (v : V) : Prop :=
  ∃ before k' after, s = before ++ (k', v) :: after ∧ (k' == k) = true ∧ hasKey after k = false

/-- The same entries up to their order, and to which of equal keys stands in them. -/
def SameEntries (s t : List (K × V)) : Prop :=
  ∃ u, t.Perm u ∧ List.Forall₂ (fun e e' ↦ (e.1 == e'.1) = true ∧ e.2 = e'.2) s u

theorem value?_reverse_eq_some_iff : value? s.reverse k = some v ↔ LastFor s k v := by
  rw [value?, Option.map_eq_some_iff]
  constructor
  · rintro ⟨⟨k', v⟩, hfind, rfl⟩
    obtain ⟨hk, after, before, hs, hafter⟩ := List.find?_eq_some_iff_append.1 hfind
    refine ⟨before.reverse, k', after.reverse, ?_, hk, ?_⟩
    · rw [← List.reverse_reverse s, hs]
      simp
    · simpa [hasKey] using hafter
  · rintro ⟨before, k', after, rfl, hk, hafter⟩
    refine ⟨(k', v), List.find?_eq_some_iff_append.2 ⟨hk, after.reverse, before.reverse, ?_, ?_⟩, rfl⟩
    · simp
    · simpa [hasKey] using hafter

variable [EquivBEq K]

theorem value?_overlay_nil (s : List (K × V)) (k : K) :
    value? (overlay [] s) k = value? s.reverse k := by
  induction s using List.reverseRecOn with
  | nil => rfl
  | append_singleton s e ih =>
    rw [overlay, List.foldl_concat, value?_insert, List.reverse_concat, value?_cons, ← ih, overlay]

theorem value?_without (s : List (K × V)) (k k' : K) :
    value? (without s k) k' = if k == k' then none else value? s k' := by
  induction s with
  | nil => exact (ite_self none).symm
  | cons e s ih =>
    rw [value?_cons, without, List.filter_cons]
    cases he : e.1 == k with
    | true =>
      rw [BEq.congr_left he, if_neg (by simp), ← without, ih]
      cases k == k' <;> rfl
    | false =>
      rw [if_pos (by simp), value?_cons, ← without, ih]
      cases hk : k == k' with
      | false => rfl
      | true => rw [← BEq.congr_right hk, he]; rfl

theorem Distinct.sameEntries (hs : Distinct s) (ht : Distinct t)
    (h : ∀ k, value? s k = value? t k) : SameEntries s t := by
  induction s generalizing t with
  | nil =>
    have hnone : t = [] := by
      refine List.eq_nil_iff_forall_not_mem.2 fun e he ↦ ?_
      have habsent : hasKey t e.1 = false := by rw [← isSome_value?, ← h]; rfl
      rw [hasKey_of_mem he] at habsent
      exact absurd habsent nofun
    rw [hnone]
    exact ⟨[], .refl [], .nil⟩
  | cons e s ih =>
    have hvalue : value? t e.1 = some e.2 := by rw [← h, value?_cons, BEq.rfl, if_pos rfl]
    obtain ⟨e', he', heq⟩ := Option.map_eq_some_iff.1 hvalue
    have hk : (e'.1 == e.1) = true := beq_of_lookup? he'
    obtain ⟨l, r, rfl⟩ := List.append_of_mem (mem_of_lookup? he')
    have hrest : ∀ k, value? s k = value? (l ++ r) k := by
      intro k
      have hs' : Association.without (e :: s) e'.1 = s :=
        hs.without_split (l := []) (BEq.comm.trans hk)
      rw [← hs', ← ht.without_split BEq.rfl, value?_without, value?_without, h]
    obtain ⟨u, hu, hsame⟩ := ih hs.tail (ht.sublist (by simp)) hrest
    refine ⟨e' :: u, List.perm_middle.trans (hu.cons e'), .cons ⟨?_, heq.symm⟩ hsame⟩
    rwa [BEq.comm]

end Association

namespace SortedMap

open Association

variable [Ord K] [Std.TransOrd K] [Std.LawfulBEqOrd K]

omit [Std.TransOrd K] in
theorem beq_eq_false_of_compare {a b : K} (h : compare a b ≠ .eq) : (a == b) = false := by
  rw [Bool.eq_false_iff]
  intro heq
  exact h (Std.LawfulBEqCmp.compare_eq_iff_beq.2 heq)

omit [Std.TransOrd K] in
theorem get?_eq (m : SortedMap K V) (k : K) : m.get? k = value? m.entries k := by
  have hkey : ∀ e : K × V, (compare e.1 k == .eq) = (e.1 == k) := by
    intro e
    rw [Bool.eq_iff_iff, beq_iff_eq, Std.LawfulBEqCmp.compare_eq_iff_beq]
  simp only [get?, hkey]
  rfl

theorem value?_place (survivor : Survivor) (e : K × V) (xs : List (K × V)) (k : K) :
    value? (place survivor e xs) k = if e.1 == k then some e.2 else value? xs k := by
  induction xs with
  | nil => exact value?_cons e [] k
  | cons x xs ih =>
    rw [place]
    split
    next => exact value?_cons e (x :: xs) k
    next heq =>
      have hx : (e.1 == x.1) = true := Std.LawfulBEqCmp.compare_eq_iff_beq.1 heq
      have hk : (e.1 == k) = (x.1 == k) := BEq.congr_left hx
      cases survivor <;> simp only [Survivor.merge, value?_cons, hk] <;> split <;> rfl
    next hgt =>
      have hne : (e.1 == x.1) = false := beq_eq_false_of_compare (by simp [hgt])
      rw [value?_cons, value?_cons, ih]
      cases hx : x.1 == k with
      | false => rfl
      | true => rw [← BEq.congr_right hx, hne]; rfl

theorem get?_ofList (pairs : List (K × V)) (k : K) :
    (ofList pairs).get? k = value? pairs.reverse k := by
  rw [get?_eq]
  induction pairs using List.reverseRecOn with
  | nil => rfl
  | append_singleton pairs e ih =>
    rw [ofList, List.foldl_concat, placed, value?_place, List.reverse_concat, value?_cons, ← ih,
      ofList]

omit [Std.TransOrd K] in
theorem distinct_entries (m : SortedMap K V) : Distinct m.entries :=
  m.ascending.imp fun hlt ↦ beq_eq_false_of_compare (by simp [hlt])

end SortedMap

theorem HashedMap.entries_ofList (pairs : List (K × V)) :
    (HashedMap.ofList pairs).entries = Association.overlay [] pairs := by
  induction pairs using List.reverseRecOn with
  | nil => rfl
  | append_singleton pairs e ih =>
    rw [ofList, extend, List.foldl_concat, entries_put, Association.overlay, List.foldl_concat]
    exact congrArg (Association.insert .insertion · e.1 e.2) ih

namespace Sequence

open Association

variable [Hashable K] [LawfulHashable K] [Ord K] [Std.TransOrd K] [Std.LawfulBEqOrd K]

/-- Every kind of map is refused, with both numbers, where there are not as many values as keys, and is
made where there are. It leads from a key to the value paired with its last occurrence. The ordered map
has the keys in the order in which they first come up, the sorted map in ascending order. -/
theorem tables_agree (ks : List K) (vs : List V) :
    (ks.length ≠ vs.length →
      let e : ArgumentError := .lengthMismatch ks.length vs.length
      hashedTable ks vs = .error e ∧ orderedTable ks vs = .error e ∧ sortedTable ks vs = .error e) ∧
    (ks.length = vs.length → ∃ hashed ordered sorted,
      hashedTable ks vs = .ok hashed ∧ orderedTable ks vs = .ok ordered ∧
      sortedTable ks vs = .ok sorted ∧
      (∀ k v, (hashed.get? k = some v ↔ LastFor (ks.zip vs) k v) ∧
        (ordered.peek? k = some v ↔ LastFor (ks.zip vs) k v) ∧
        (sorted.get? k = some v ↔ LastFor (ks.zip vs) k v)) ∧
      SameEntries ordered.toList hashed.entries ∧ SameEntries ordered.toList sorted.entries ∧
      ordered.keys = firsts ks ∧ sorted.keys.Pairwise (compare · · = .lt) ∧
      OrderedMap.ofList (ks.zip vs) = ordered) := by
  constructor
  · intro hne e
    have hpaired : paired ks vs = .error e := if_neg hne
    rw [hashedTable, orderedTable, sortedTable, hpaired]
    exact ⟨rfl, rfl, rfl⟩
  · intro heq
    have hpaired : paired ks vs = .ok (ks.zip vs) := if_pos heq
    rw [hashedTable, orderedTable, sortedTable, hpaired]
    have hordered := OrderedMap.shows_ofList (ks.zip vs)
    have hhashed := HashedMap.entries_ofList (ks.zip vs)
    refine ⟨_, _, _, rfl, rfl, rfl, ?_, ?_, ?_, ?_, (SortedMap.ofList _).ascending, rfl⟩
    · intro k v
      rw [HashedMap.get?_eq, hhashed, hordered.peek?, SortedMap.get?_ofList, value?_overlay_nil]
      exact ⟨value?_reverse_eq_some_iff, value?_reverse_eq_some_iff, value?_reverse_eq_some_iff⟩
    · rw [hordered.toList, hhashed]
      exact hordered.distinct.sameEntries hordered.distinct fun _ ↦ rfl
    · rw [hordered.toList]
      refine hordered.distinct.sameEntries (SortedMap.distinct_entries _) fun k ↦ ?_
      rw [value?_overlay_nil, ← SortedMap.get?_eq, SortedMap.get?_ofList]
    · rw [OrderedMap.keys, hordered.toList, keys_overlay_nil, List.map_fst_zip heq.le]

theorem tables_agree_folded : LawfulHashable Item ∧ Std.TransOrd Item ∧ Std.LawfulBEqOrd Item ∧
    let ks : List Item := [.folded "b", .int 1, .folded "B"]
    let vs : List ℕ := [1, 2, 3]
    ks.length ≠ (vs.take 1).length ∧ sortedTable ks (vs.take 1) = .error (.lengthMismatch 3 1) ∧
    ks.length = vs.length ∧ ∃ hashed ordered sorted,
      hashedTable ks vs = .ok hashed ∧ orderedTable ks vs = .ok ordered ∧
      sortedTable ks vs = .ok sorted ∧
      hashed.get? (.folded "b") = some 3 ∧ ordered.peek? (.folded "b") = some 3 ∧
      sorted.get? (.folded "b") = some 3 ∧
      SameEntries ordered.toList sorted.entries ∧ ordered.keys = [.folded "b", .int 1] := by
  refine ⟨inferInstance, inferInstance, inferInstance, ?_⟩
  intro ks vs
  have hne : ks.length ≠ (vs.take 1).length := by decide
  have hlast : LastFor (ks.zip vs) (.folded "b") 3 :=
    ⟨[(.folded "b", 1), (.int 1, 2)], .folded "B", [], rfl, rfl, rfl⟩
  obtain ⟨hashed, ordered, sorted, hh, ho, hs, hvalue, -, hsame, hkeys, -, -⟩ :=
    (tables_agree ks vs).2 rfl
  obtain ⟨hhashed, hordered, hsorted⟩ := hvalue (.folded "b") 3
  exact ⟨hne, ((tables_agree ks (vs.take 1)).1 hne).2.2, rfl, hashed, ordered, sorted, hh, ho, hs,
    hhashed.2 hlast, hordered.2 hlast, hsorted.2 hlast, hsame, hkeys.trans rfl⟩

end Sequence

end Holdall
