import Holdall.Proofs.OrderedMap.Refinement

namespace Holdall.Association

variable {K V : Type} [BEq K] {s t u : List (K × V)} {k : K}

/-- The entries of `t`, stored one by one. -/
def overlay (s t : List (K × V)) : List (K × V) :=
  t.foldl (fun s (k, v) ↦ insert .insertion s k v) s

theorem overlay_cons (s : List (K × V)) (e : K × V) (t : List (K × V)) :
    overlay s (e :: t) = overlay (insert .insertion s e.1 e.2) t := rfl

theorem insert_of_hasKey (h : hasKey s k = true) (v : V) :
    insert .insertion s k v = alter s k fun _ ↦ v := if_pos h

theorem insert_of_absent (h : hasKey s k = false) (v : V) :
    insert .insertion s k v = s ++ [(k, v)] := by
  rw [insert, h]
  rfl

theorem value?_cons (e : K × V) (s : List (K × V)) (k : K) :
    value? (e :: s) k = if e.1 == k then some e.2 else value? s k := by
  rw [value?, lookup?, List.find?_cons]
  cases e.1 == k <;> rfl

theorem Distinct.tail {e : K × V} (h : Distinct (e :: t)) : Distinct t :=
  h.sublist (List.sublist_cons_self e t)

theorem Distinct.insert (h : Distinct s) (k : K) (v : V) :
    Distinct (Association.insert .insertion s k v) := by
  cases hk : hasKey s k with
  | true =>
    rw [insert_of_hasKey hk]
    exact h.alter k _
  | false =>
    rw [insert_of_absent hk]
    exact h.push hk

theorem Distinct.overlay (h : Distinct s) (t : List (K × V)) : Distinct (overlay s t) := by
  induction t generalizing s with
  | nil => exact h
  | cons e t ih => exact ih (h.insert e.1 e.2)

theorem Distinct.eq_of_value? [EquivBEq K] (h : Distinct s) (hkeys : s.map Prod.fst = t.map Prod.fst)
    (hvalue : ∀ k, value? s k = value? t k) : s = t := by
  have ht : Distinct t := by
    rw [Distinct, ← hkeys]
    exact h
  have hlist : ∀ r : List (K × V), Distinct r →
      (r.map Prod.fst).filterMap (fun k ↦ (value? r k).map (k, ·)) = r := by
    intro r hr
    rw [List.filterMap_map]
    refine (List.filterMap_congr fun e he ↦ ?_).trans List.filterMap_some
    obtain ⟨before, after, rfl⟩ := List.append_of_mem he
    simp [hr.value?_split BEq.rfl]
  rw [← hlist s h, ← hlist t ht, hkeys]
  simp only [hvalue]

section

variable [EquivBEq K]

theorem value?_insert (s : List (K × V)) (k k' : K) (v : V) :
    value? (insert .insertion s k v) k' = if k == k' then some v else value? s k' := by
  cases hk : hasKey s k with
  | false => rw [insert_of_absent hk, value?_push hk]
  | true =>
    rw [insert_of_hasKey hk, value?_alter]
    split
    next hkk' =>
      rw [hasKey_congr hkk', ← isSome_value?] at hk
      obtain ⟨v', hv'⟩ := Option.isSome_iff_exists.1 hk
      rw [hv', Option.map_some]
    next => rfl

theorem hasKey_insert (s : List (K × V)) (k k' : K) (v : V) :
    hasKey (insert .insertion s k v) k' = (k == k' || hasKey s k') := by
  rw [← isSome_value?, value?_insert, ← isSome_value?]
  cases k == k' <;> rfl

theorem hasKey_of_mem {e : K × V} (h : e ∈ s) : hasKey s e.1 = true :=
  List.any_eq_true.2 ⟨e, h, BEq.rfl⟩

theorem Distinct.not_hasKey_tail {e : K × V} (h : Distinct (e :: t)) : hasKey t e.1 = false :=
  (h.around (l := []) BEq.rfl).2

theorem overlay_eq (s : List (K × V)) (h : Distinct t) : overlay s t =
    s.map (fun e ↦ (e.1, (value? t e.1).getD e.2)) ++ t.filter fun e ↦ !hasKey s e.1 := by
  induction t generalizing s with
  | nil => simp [overlay, value?, lookup?]
  | cons e t ih =>
    have habsent := h.not_hasKey_tail
    have hne : ∀ e' ∈ t, (e.1 == e'.1) = false := by
      intro e' he'
      rw [BEq.comm]
      simpa using List.any_eq_false.1 habsent e' he'
    have hrest : (t.filter fun e' ↦ !hasKey (insert .insertion s e.1 e.2) e'.1) =
        t.filter fun e' ↦ !hasKey s e'.1 := by
      refine List.filter_congr fun e' he' ↦ ?_
      rw [hasKey_insert, hne e' he', Bool.false_or]
    rw [overlay_cons, ih _ h.tail, hrest]
    cases hk : hasKey s e.1 with
    | true =>
      have hvalues : (alter s e.1 fun _ ↦ e.2).map (fun e' ↦ (e'.1, (value? t e'.1).getD e'.2)) =
          s.map fun e' ↦ (e'.1, (value? (e :: t) e'.1).getD e'.2) := by
        rw [alter, List.map_map]
        refine List.map_congr_left fun e' _ ↦ ?_
        rw [Function.comp_apply, value?_cons, BEq.comm (a := e.1)]
        cases he' : e'.1 == e.1 with
        | false => rfl
        | true =>
          rw [← hasKey_congr he'] at habsent
          simp [value?_of_absent habsent]
      rw [insert_of_hasKey hk, hvalues, List.filter_cons_of_neg (by simp [hk])]
    | false =>
      have hvalues : s.map (fun e' ↦ (e'.1, (value? (e :: t) e'.1).getD e'.2)) =
          s.map fun e' ↦ (e'.1, (value? t e'.1).getD e'.2) := by
        refine List.map_congr_left fun e' he' ↦ ?_
        have hne' : (e.1 == e'.1) = false := by
          rw [BEq.comm]
          simpa using List.any_eq_false.1 hk e' he'
        rw [value?_cons, hne']
        rfl
      rw [insert_of_absent hk, List.map_append, List.map_singleton, value?_of_absent habsent, hvalues,
        List.filter_cons_of_pos (by simp [hk]), List.append_assoc]
      rfl

theorem keys_overlay (s : List (K × V)) (h : Distinct t) : (overlay s t).map Prod.fst =
    s.map Prod.fst ++ (t.map Prod.fst).filter fun k ↦ !hasKey s k := by
  rw [overlay_eq s h, List.map_append, List.map_map, List.filter_map]
  rfl

theorem value?_overlay (s : List (K × V)) (h : Distinct t) (k : K) :
    value? (overlay s t) k = (value? t k).or (value? s k) := by
  induction t generalizing s with
  | nil => rfl
  | cons e t ih =>
    have habsent := h.not_hasKey_tail
    rw [overlay_cons, ih _ h.tail, value?_insert, value?_cons]
    cases hk : e.1 == k with
    | false => rfl
    | true =>
      rw [hasKey_congr hk] at habsent
      rw [value?_of_absent habsent]
      rfl

theorem hasKey_overlay (s : List (K × V)) (h : Distinct t) (k : K) :
    hasKey (overlay s t) k = (hasKey t k || hasKey s k) := by
  rw [← isSome_value?, value?_overlay s h, Option.isSome_or, isSome_value?, isSome_value?]

theorem nil_overlay (h : Distinct t) : overlay [] t = t := by
  rw [overlay_eq [] h]
  exact List.filter_eq_self.2 fun _ _ ↦ rfl

theorem overlay_self (h : Distinct s) : overlay s s = s := by
  apply (h.overlay s).eq_of_value?
  · rw [keys_overlay s h, List.filter_eq_nil_iff.2, List.append_nil]
    intro k hk
    obtain ⟨e, he, rfl⟩ := List.mem_map.1 hk
    simp [hasKey_of_mem he]
  · intro k
    rw [value?_overlay s h, Option.or_self]

theorem overlay_assoc (hs : Distinct s) (ht : Distinct t) (hu : Distinct u) :
    overlay (overlay s t) u = overlay s (overlay t u) := by
  have htu := ht.overlay u
  apply ((hs.overlay t).overlay u).eq_of_value?
  · simp only [keys_overlay _ hu, keys_overlay s ht, keys_overlay s htu, hasKey_overlay s ht,
      List.filter_append, List.filter_filter, List.append_assoc, Bool.not_or, Bool.and_comm]
  · intro k
    rw [value?_overlay _ hu, value?_overlay s ht, value?_overlay s htu, value?_overlay t hu,
      Option.or_assoc]

end

end Holdall.Association
