import Holdall.Slot.Chain
import Holdall.Proofs.Association

namespace Holdall.Slot

open Association

variable {α : Type} {s l r : List (Id × α)} {before after : Option Id} {id : Id} {x : α}

/-- What follows the place in front of a row which `after` follows. -/
def firstId (after : Option Id) : List (Id × α) → Option Id
  | [] => after
  | (id, _) :: _ => some id

/-- What comes before the place behind a row which `before` precedes. -/
def lastId (before : Option Id) : List (Id × α) → Option Id
  | [] => before
  | (id, _) :: rest => lastId (some id) rest

/-- The node at an id in a row that stands between `before` and `after`. -/
def nodeIn (before after : Option Id) : List (Id × α) → Id → Option (Node α)
  | [], _ => none
  | (i, x) :: rest, id =>
    if id = i then some { value := x, before, after := firstId after rest }
    else nodeIn (some i) after rest id

@[simp] theorem firstId_cons (after : Option Id) (p : Id × α) (s : List (Id × α)) :
    firstId after (p :: s) = some p.1 := rfl

theorem firstId_append (after : Option Id) (l r : List (Id × α)) :
    firstId after (l ++ r) = firstId (firstId after r) l := by
  cases l <;> rfl

theorem lastId_append (before : Option Id) (l r : List (Id × α)) :
    lastId before (l ++ r) = lastId (lastId before l) r := by
  induction l generalizing before with
  | nil => rfl
  | cons p l ih => exact ih (some p.1)

theorem firstId_eq_head? (s : List (Id × α)) : firstId none s = s.head?.map Prod.fst := by
  cases s <;> rfl

theorem lastId_concat (before : Option Id) (l : List (Id × α)) (p : Id × α) :
    lastId before (l ++ [p]) = some p.1 := by
  rw [lastId_append]
  rfl

theorem lastId_eq_getLast? (s : List (Id × α)) : lastId none s = s.getLast?.map Prod.fst := by
  rcases s.eq_nil_or_concat' with rfl | ⟨l, p, rfl⟩
  · rfl
  · simp [lastId_concat]

theorem lastId_none_iff : lastId none s = none ↔ s = [] := by
  simp [lastId_eq_getLast?]

theorem hasKey_of_lastId (h : lastId none s = some id) : hasKey s id = true := by
  rw [lastId_eq_getLast?, Option.map_eq_some_iff] at h
  obtain ⟨p, hp, rfl⟩ := h
  exact List.any_eq_true.2 ⟨p, List.mem_of_getLast? hp, beq_self_eq_true _⟩

theorem hasKey_of_firstId (h : firstId none s = some id) : hasKey s id = true := by
  rw [firstId_eq_head?, Option.map_eq_some_iff] at h
  obtain ⟨p, hp, rfl⟩ := h
  exact List.any_eq_true.2 ⟨p, List.mem_of_head? hp, beq_self_eq_true _⟩

theorem not_lastId (hid : hasKey s id = false) : lastId none s ≠ some id := by
  intro hc
  have hin := hasKey_of_lastId hc
  simp [hid] at hin

theorem not_firstId (hid : hasKey s id = false) : firstId none s ≠ some id := by
  intro hc
  have hin := hasKey_of_firstId hc
  simp [hid] at hin

theorem nodeIn_append (before after : Option Id) (l r : List (Id × α)) (id : Id) :
    nodeIn before after (l ++ r) id =
      (nodeIn before (firstId after r) l id).or (nodeIn (lastId before l) after r id) := by
  induction l generalizing before with
  | nil => rfl
  | cons p l ih =>
    simp only [List.cons_append, nodeIn, firstId_append, lastId, ih]
    split <;> rfl

theorem map_value_nodeIn (before after : Option Id) (s : List (Id × α)) (id : Id) :
    (nodeIn before after s id).map Node.value = value? s id := by
  induction s generalizing before with
  | nil => rfl
  | cons p s ih =>
    by_cases h : id = p.1
    · simp [nodeIn, value?, lookup?, h]
    · have hne : (p.1 == id) = false := by simpa using Ne.symm h
      simpa [nodeIn, value?, lookup?, h, hne] using ih (some p.1)

theorem isSome_nodeIn (before after : Option Id) (s : List (Id × α)) (id : Id) :
    (nodeIn before after s id).isSome = hasKey s id := by
  rw [← Option.isSome_map, map_value_nodeIn, value?, Option.isSome_map, lookup?, List.isSome_find?]
  rfl

theorem nodeIn_eq_none (h : hasKey s id = false) : nodeIn before after s id = none := by
  rw [← Option.isNone_iff_eq_none, ← Option.not_isSome, isSome_nodeIn, h]
  rfl

theorem nodeIn_split (h : Distinct (l ++ (id, x) :: r)) :
    nodeIn before after (l ++ (id, x) :: r) id =
      some { value := x, before := lastId before l, after := firstId after r } := by
  have hl := (h.around (beq_self_eq_true id)).1
  rw [nodeIn_append, nodeIn_eq_none hl]
  simp [nodeIn]

theorem nodeIn_after (h : Distinct s) (after after' : Option Id) :
    nodeIn before after' s id = if lastId none s = some id
      then (nodeIn before after s id).map fun n ↦ { n with after := after' }
      else nodeIn before after s id := by
  rcases s.eq_nil_or_concat' with rfl | ⟨l, ⟨i, y⟩, rfl⟩
  · simp [nodeIn]
  · have hl := (h.around (beq_self_eq_true i)).1
    simp only [lastId_concat, nodeIn_append, nodeIn, firstId, Option.some.injEq]
    by_cases hi : i = id
    · subst hi
      simp [nodeIn_eq_none hl]
    · simp [hi, Ne.symm hi]

theorem nodeIn_before (s : List (Id × α)) (before before' : Option Id) :
    nodeIn before' after s id = if firstId none s = some id
      then (nodeIn before after s id).map fun n ↦ { n with before := before' }
      else nodeIn before after s id := by
  cases s with
  | nil => simp [nodeIn]
  | cons p s =>
    by_cases h : p.1 = id
    · simp [nodeIn, firstId, h]
    · simp [nodeIn, firstId, h, Ne.symm h]

theorem nodeIn_alter (before after : Option Id) (s : List (Id × α)) (id other : Id) (f : α → α) :
    nodeIn before after (alter s id f) other = if other = id
      then (nodeIn before after s id).map fun n ↦ { n with value := f n.value }
      else nodeIn before after s other := by
  induction s generalizing before with
  | nil => simp [alter, nodeIn]
  | cons p s ih =>
    have hfirst : firstId after (alter s id f) = firstId after s := by
      cases s with
      | nil => rfl
      | cons q s => by_cases hq : q.1 = id <;> simp [alter, hq]
    have hcons : alter (p :: s) id f = (if p.1 = id then (p.1, f p.2) else p) :: alter s id f := by
      simp [alter]
    rw [hcons]
    by_cases hp : p.1 = id
    · by_cases ho : other = id
      · simp [nodeIn, hp, ho, hfirst]
      · simp [nodeIn, hp, ho, ih]
    · by_cases ho : other = p.1
      · simp [nodeIn, hp, ho, hfirst]
      · simp [nodeIn, hp, ho, ih, Ne.symm hp]

theorem lastId_alter (before : Option Id) (s : List (Id × α)) (id : Id) (f : α → α) :
    lastId before (alter s id f) = lastId before s := by
  induction s generalizing before with
  | nil => rfl
  | cons p s ih =>
    have hp : (if p.1 == id then (p.1, f p.2) else p).1 = p.1 := by split <;> rfl
    simpa only [alter, List.map_cons, lastId, hp] using ih (some p.1)

theorem exists_split_of_hasKey (h : hasKey s id = true) : ∃ l x r, s = l ++ (id, x) :: r := by
  obtain ⟨⟨i, x⟩, hx, hi⟩ := exists_mem_of_hasKey h
  obtain ⟨l, r, rfl⟩ := List.append_of_mem hx
  exact ⟨l, x, r, by simpa using hi⟩

end Holdall.Slot
