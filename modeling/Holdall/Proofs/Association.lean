import Mathlib.Data.List.Perm.Basic

/-!
Entries in a row, no two of them with equal keys. Keys may be equal without being identical, so a key
stands for whichever entry has a key equal to it. These lists are what ordered maps, and chains with
their ids for keys, are measured against.
-/

namespace Holdall.Association

variable {K V : Type} [BEq K] {s l r : List (K × V)} {e : K × V} {k : K}

def Distinct (s : List (K × V)) : Prop := (s.map Prod.fst).Pairwise fun a b ↦ (a == b) = false

def lookup? (s : List (K × V)) (k : K) : Option (K × V) := s.find? (·.1 == k)

def value? (s : List (K × V)) (k : K) : Option V := (lookup? s k).map Prod.snd

def hasKey (s : List (K × V)) (k : K) : Bool := s.any (·.1 == k)

/-- Changes the value of a key. The key stored there and its place stay. -/
def alter (s : List (K × V)) (k : K) (f : V → V) : List (K × V) :=
  s.map fun e ↦ if e.1 == k then (e.1, f e.2) else e

def without (s : List (K × V)) (k : K) : List (K × V) := s.filter fun e ↦ !(e.1 == k)

/-- Puts the entry of a key behind all others, which keep their order. -/
def toEnd (s : List (K × V)) (k : K) : List (K × V) := without s k ++ s.filter (·.1 == k)

theorem distinct_nil : Distinct ([] : List (K × V)) := .nil

theorem lookup?_eq_none : lookup? s k = none ↔ hasKey s k = false := by
  simp [lookup?, hasKey]

theorem mem_of_lookup? (h : lookup? s k = some e) : e ∈ s := List.mem_of_find?_eq_some h

theorem beq_of_lookup? (h : lookup? s k = some e) : (e.1 == k) = true := by
  simpa using List.find?_some h

@[simp] theorem keys_alter (s : List (K × V)) (k : K) (f : V → V) :
    (alter s k f).map Prod.fst = s.map Prod.fst := by
  simp only [alter, List.map_map, List.map_inj_left, Function.comp_apply]
  intro e _
  split <;> rfl

@[simp] theorem length_alter (s : List (K × V)) (k : K) (f : V → V) :
    (alter s k f).length = s.length := by simp [alter]

theorem without_sublist (s : List (K × V)) (k : K) : (without s k).Sublist s := List.filter_sublist

theorem keys_without (s : List (K × V)) (k : K) :
    (without s k).map Prod.fst = (s.map Prod.fst).filter fun k' ↦ !(k' == k) := by
  rw [List.filter_map]
  rfl

theorem toEnd_perm (s : List (K × V)) (k : K) : (toEnd s k).Perm s :=
  List.perm_append_comm.trans (List.filter_append_perm (·.1 == k) s)

@[simp] theorem length_toEnd (s : List (K × V)) (k : K) : (toEnd s k).length = s.length :=
  (toEnd_perm s k).length_eq

theorem value?_of_absent (h : hasKey s k = false) : value? s k = none := by
  rw [value?, lookup?_eq_none.2 h, Option.map_none]

theorem isSome_value? (s : List (K × V)) (k : K) : (value? s k).isSome = hasKey s k := by
  rw [Bool.eq_iff_iff, value?, Option.isSome_map, lookup?, List.find?_isSome, hasKey, List.any_eq_true]

theorem without_of_absent (h : hasKey s k = false) : without s k = s := by
  simpa [without, hasKey] using h

theorem toEnd_of_absent (h : hasKey s k = false) : toEnd s k = s := by
  rw [toEnd, without_of_absent h, List.filter_eq_nil_iff.2 (by simpa [hasKey] using h),
    List.append_nil]

theorem alter_of_absent (f : V → V) (h : hasKey s k = false) : alter s k f = s := by
  rw [alter, List.map_congr_left (g := id) ?_, List.map_id]
  intro e he
  simp [List.any_eq_false.1 h e he]

theorem hasKey_congr [EquivBEq K] {k k' : K} (h : (k == k') = true) (s : List (K × V)) :
    hasKey s k = hasKey s k' := by
  simp only [hasKey, BEq.congr_right h]

theorem hasKey_eq_of_keys (h : s.map Prod.fst = l.map Prod.fst) : hasKey s k = hasKey l k := by
  have hkeys : ∀ t : List (K × V), hasKey t k = (t.map Prod.fst).any (· == k) := by
    intro t
    rw [List.any_map]
    rfl
  rw [hkeys, hkeys, h]

theorem mem_keys_iff [LawfulBEq K] : k ∈ s.map Prod.fst ↔ hasKey s k = true := by
  simp [hasKey]

theorem hasKey_append (l r : List (K × V)) (k : K) :
    hasKey (l ++ r) k = (hasKey l k || hasKey r k) := by simp [hasKey]

theorem value?_append_left {v : V} (h : value? l k = some v) (r : List (K × V)) :
    value? (l ++ r) k = some v := by
  obtain ⟨e, he, rfl⟩ := Option.map_eq_some_iff.1 h
  rw [lookup?] at he
  rw [value?, lookup?, List.find?_append, he]
  rfl

theorem value?_push [EquivBEq K] (h : hasKey s k = false) (v : V) (k' : K) :
    value? (s ++ [(k, v)]) k' = if k == k' then some v else value? s k' := by
  rw [value?, lookup?, List.find?_append]
  by_cases hk : (k == k') = true
  · have hnone : s.find? (·.1 == k') = none := by
      rw [hasKey_congr hk] at h
      exact lookup?_eq_none.2 h
    rw [hnone, if_pos hk, Option.none_or, List.find?_cons_of_pos (by simpa using hk)]
    rfl
  · rw [if_neg hk, List.find?_cons_of_neg (by simpa using hk), List.find?_nil, Option.or_none]
    rfl

theorem value?_alter [EquivBEq K] (s : List (K × V)) (k k' : K) (f : V → V) :
    value? (alter s k f) k' = if k == k' then (value? s k').map f else value? s k' := by
  have hkeys : ((·.1 == k') ∘ fun e : K × V ↦ if e.1 == k then (e.1, f e.2) else e) = (·.1 == k') := by
    funext e
    rw [Function.comp_apply]
    split <;> rfl
  rw [value?, value?, lookup?, alter, List.find?_map, hkeys]
  cases he : s.find? (·.1 == k') with
  | none => simp [lookup?, he]
  | some e =>
    have hek : (e.1 == k') = true := beq_of_lookup? he
    rw [lookup?, he, Option.map_some, Option.map_some, BEq.congr_left hek, BEq.comm]
    split <;> rfl

theorem exists_mem_of_hasKey (h : hasKey s k = true) : ∃ e ∈ s, (e.1 == k) = true := by
  simpa [hasKey] using h

theorem alter_append (l r : List (K × V)) (k : K) (f : V → V) :
    alter (l ++ r) k f = alter l k f ++ alter r k f := List.map_append

namespace Distinct

theorem alter (h : Distinct s) (k : K) (f : V → V) : Distinct (alter s k f) := by
  rwa [Distinct, keys_alter]

theorem sublist (h : Distinct s) (hl : l.Sublist s) : Distinct l :=
  List.Pairwise.sublist (hl.map Prod.fst) h

theorem without (h : Distinct s) (k : K) : Distinct (without s k) := h.sublist (without_sublist s k)

theorem push {v : V} (h : Distinct s) (hk : hasKey s k = false) : Distinct (s ++ [(k, v)]) := by
  rw [Distinct, List.map_append, List.pairwise_append]
  refine ⟨h, List.pairwise_singleton _ _, ?_⟩
  intro a ha b hb
  obtain ⟨e, he, rfl⟩ := List.mem_map.1 ha
  rw [List.map_singleton, List.mem_singleton] at hb
  subst hb
  simpa using List.any_eq_false.1 hk e he

variable [EquivBEq K]

theorem perm (h : Distinct s) (hp : s.Perm l) : Distinct l :=
  ((hp.map Prod.fst).pairwise_iff fun hab ↦ by rwa [BEq.comm]).1 h

theorem toEnd (h : Distinct s) (k : K) : Distinct (toEnd s k) := h.perm (toEnd_perm s k).symm

theorem around (h : Distinct (l ++ e :: r)) (hk : (e.1 == k) = true) :
    hasKey l k = false ∧ hasKey r k = false := by
  rw [Distinct, List.map_append, List.map_cons, List.pairwise_append, List.pairwise_cons] at h
  rw [← hasKey_congr hk, ← hasKey_congr hk]
  simp only [hasKey, List.any_eq_false, Bool.not_eq_true]
  constructor
  · intro a ha
    exact h.2.2 _ (List.mem_map_of_mem ha) _ List.mem_cons_self
  · intro b hb
    rw [BEq.comm]
    exact h.2.1.1 _ (List.mem_map_of_mem hb)

theorem not_hasKey_of_append (h : Distinct (l ++ r)) (hk : hasKey l k = true) :
    hasKey r k = false := by
  obtain ⟨e, he, hek⟩ := exists_mem_of_hasKey hk
  obtain ⟨l₁, l₂, rfl⟩ := List.append_of_mem he
  rw [List.append_assoc, List.cons_append] at h
  have hr := (h.around hek).2
  rw [hasKey_append, Bool.or_eq_false_iff] at hr
  exact hr.2

theorem without_split (h : Distinct (l ++ e :: r)) (hk : (e.1 == k) = true) :
    Association.without (l ++ e :: r) k = l ++ r := by
  obtain ⟨hl, hr⟩ := h.around hk
  have hl' := without_of_absent hl
  have hr' := without_of_absent hr
  rw [Association.without] at hl' hr' ⊢
  simp [List.filter_append, hk, hl', hr']

theorem toEnd_split (h : Distinct (l ++ e :: r)) (hk : (e.1 == k) = true) :
    Association.toEnd (l ++ e :: r) k = l ++ r ++ [e] := by
  obtain ⟨hl, hr⟩ := h.around hk
  have hl' : l.filter (·.1 == k) = [] := List.filter_eq_nil_iff.2 (by simpa [hasKey] using hl)
  have hr' : r.filter (·.1 == k) = [] := List.filter_eq_nil_iff.2 (by simpa [hasKey] using hr)
  rw [Association.toEnd, h.without_split hk]
  simp [List.filter_append, hk, hl', hr']

theorem alter_split (h : Distinct (l ++ e :: r)) (hk : (e.1 == k) = true) (f : V → V) :
    Association.alter (l ++ e :: r) k f = l ++ (e.1, f e.2) :: r := by
  obtain ⟨hl, hr⟩ := h.around hk
  have hcons : Association.alter (e :: r) k f = (e.1, f e.2) :: Association.alter r k f := by
    simp [Association.alter, hk]
  rw [alter_append, hcons, alter_of_absent f hl, alter_of_absent f hr]

theorem lookup?_split (h : Distinct (l ++ e :: r)) (hk : (e.1 == k) = true) :
    lookup? (l ++ e :: r) k = some e := by
  have hl := lookup?_eq_none.2 (h.around hk).1
  rw [lookup?] at hl ⊢
  simp [List.find?_append, hl, hk]

theorem value?_split (h : Distinct (l ++ e :: r)) (hk : (e.1 == k) = true) :
    value? (l ++ e :: r) k = some e.2 := by
  rw [value?, h.lookup?_split hk, Option.map_some]

theorem lookup?_eq_some (h : Distinct s) : lookup? s k = some e ↔ e ∈ s ∧ (e.1 == k) = true := by
  constructor
  · intro he
    exact ⟨mem_of_lookup? he, beq_of_lookup? he⟩
  · rintro ⟨he, hk⟩
    obtain ⟨l, r, rfl⟩ := List.append_of_mem he
    exact h.lookup?_split hk

theorem perm_without (h : Distinct s) (k : K) :
    s.Perm ((lookup? s k).toList ++ Association.without s k) := by
  cases hk : hasKey s k with
  | false =>
    rw [lookup?_eq_none.2 hk, without_of_absent hk]
    exact .refl s
  | true =>
    obtain ⟨e, he, hek⟩ := exists_mem_of_hasKey hk
    obtain ⟨l, r, rfl⟩ := List.append_of_mem he
    rw [h.lookup?_split hek, h.without_split hek]
    exact List.perm_middle

theorem eq_of_beq {A : Type} {f : A → K × V} {as : List A} (h : Distinct (as.map f)) {a b : A}
    (ha : a ∈ as) (hb : b ∈ as) (hk : ((f a).1 == (f b).1) = true) : a = b := by
  obtain ⟨l, r, rfl⟩ := List.append_of_mem hb
  rw [List.map_append, List.map_cons] at h
  obtain ⟨hl, hr⟩ := h.around BEq.rfl
  rw [hasKey, List.any_map, List.any_eq_false] at hl hr
  rcases List.mem_append.1 ha with ha | ha
  · exact absurd hk (hl a ha)
  · rcases List.mem_cons.1 ha with ha | ha
    · exact ha
    · exact absurd hk (hr a ha)

theorem eq_of_mem {e' : K × V} (h : Distinct s) (he : e ∈ s) (he' : e' ∈ s)
    (hk : (e.1 == e'.1) = true) : e = e' := by
  rw [← List.map_id s] at h
  exact h.eq_of_beq he he' hk

theorem lookup?_eq_of_perm (h : Distinct s) (hp : s.Perm l) (k : K) : lookup? s k = lookup? l k := by
  apply Option.ext
  intro e
  rw [h.lookup?_eq_some, (h.perm hp).lookup?_eq_some, hp.mem_iff]

theorem value?_eq_of_perm (h : Distinct s) (hp : s.Perm l) (k : K) : value? s k = value? l k := by
  rw [value?, h.lookup?_eq_of_perm hp, value?]

theorem length_le_of_covered {ks : List K} (h : Distinct s)
    (hks : ∀ e ∈ s, ∃ k ∈ ks, (e.1 == k) = true) : s.length ≤ ks.length := by
  induction s generalizing ks with
  | nil => exact Nat.zero_le _
  | cons e s ih =>
    obtain ⟨k, hk, hek⟩ := hks e List.mem_cons_self
    obtain ⟨l, r, rfl⟩ := List.append_of_mem hk
    have hothers : hasKey s k = false := (h.around (l := []) hek).2
    have hrest : ∀ e' ∈ s, ∃ k' ∈ l ++ r, (e'.1 == k') = true := by
      intro e' he'
      obtain ⟨k', hk', hek'⟩ := hks e' (List.mem_cons_of_mem e he')
      rw [List.mem_append, List.mem_cons] at hk'
      rcases hk' with hl | rfl | hr
      · exact ⟨k', List.mem_append_left r hl, hek'⟩
      · exact absurd hek' (List.any_eq_false.1 hothers e' he')
      · exact ⟨k', List.mem_append_right l hr, hek'⟩
    have hlen := ih (h.sublist (List.sublist_cons_self e s)) hrest
    rw [List.length_append] at hlen
    rw [List.length_append, List.length_cons, List.length_cons]
    omega

end Distinct

section

variable {J W : Type} [BEq J] {j : J} {f : K × V → J × W}

theorem hasKey_map (h : ∀ e ∈ s, (e.1 == k) = ((f e).1 == j)) :
    hasKey (s.map f) j = hasKey s k := by
  rw [Bool.eq_iff_iff, hasKey, hasKey, List.any_map, List.any_eq_true, List.any_eq_true]
  refine exists_congr fun e ↦ and_congr_right ?_
  intro he
  rw [h e he]
  rfl

theorem map_without (h : ∀ e ∈ s, (e.1 == k) = ((f e).1 == j)) :
    (without s k).map f = without (s.map f) j := by
  rw [without, without, List.filter_map, List.filter_congr]
  intro e he
  simp [h e he]

theorem map_toEnd (h : ∀ e ∈ s, (e.1 == k) = ((f e).1 == j)) :
    (toEnd s k).map f = toEnd (s.map f) j := by
  rw [toEnd, List.map_append, map_without h, toEnd, List.filter_map, List.filter_congr]
  intro e he
  simp [h e he]

theorem map_alter (h : ∀ e ∈ s, (e.1 == k) = ((f e).1 == j)) {g : V → V} {g' : W → W}
    (hg : ∀ e, f (e.1, g e.2) = ((f e).1, g' (f e).2)) :
    (alter s k g).map f = alter (s.map f) j g' := by
  simp only [alter, List.map_map, List.map_inj_left, Function.comp_apply]
  intro e he
  rw [h e he, ← hg]
  split <;> rfl

end

def siftM {m : Type → Type} [Monad m] (visit : K → V → m (V × Bool)) :
    List (K × V) → m (List (K × V))
  | [] => pure []
  | (k, v) :: rest => do
    let (v, stays) ← visit k v
    let rest ← siftM visit rest
    return if stays then (k, v) :: rest else rest

omit [BEq K] in
theorem run_siftM_cons {σ : Type} (visit : K → V → StateM σ (V × Bool)) (k : K) (v : V)
    (rest : List (K × V)) (start : σ) :
    (siftM visit ((k, v) :: rest)).run start =
      let met := (visit k v).run start
      let left := (siftM visit rest).run met.2
      (if met.1.2 then (k, met.1.1) :: left.1 else left.1, left.2) := rfl

end Holdall.Association
