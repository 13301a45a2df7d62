import Holdall.Proofs.Slot.Arena
import Holdall.Proofs.Slot.Row

namespace Holdall.Slot.Chain

open Association

variable {α : Type} {c : Chain α} {s l r : List (Id × α)} {id : Id} {x : α}

theorem get?_linkAfter (c : Chain α) (place target : Option Id) (id : Id) :
    (c.linkAfter place target).nodes.get? id = if place = some id
      then (c.nodes.get? id).map fun n ↦ { n with after := target } else c.nodes.get? id := by
  cases place with
  | none => simp [linkAfter]
  | some p =>
    simp only [linkAfter, Arena.get?_modify, Option.some.injEq, eq_comm (a := id)]
    split <;> simp_all

theorem get?_linkBefore (c : Chain α) (place target : Option Id) (id : Id) :
    (c.linkBefore place target).nodes.get? id = if place = some id
      then (c.nodes.get? id).map fun n ↦ { n with before := target } else c.nodes.get? id := by
  cases place with
  | none => simp [linkBefore]
  | some p =>
    simp only [linkBefore, Arena.get?_modify, Option.some.injEq, eq_comm (a := id)]
    split <;> simp_all

theorem first_linkAfter (c : Chain α) (place target : Option Id) :
    (c.linkAfter place target).first = if place = none then target else c.first := by
  cases place <;> simp [linkAfter]

theorem last_linkBefore (c : Chain α) (place target : Option Id) :
    (c.linkBefore place target).last = if place = none then target else c.last := by
  cases place <;> simp [linkBefore]

@[simp] theorem last_linkAfter (c : Chain α) (place target : Option Id) :
    (c.linkAfter place target).last = c.last := by
  cases place <;> rfl

@[simp] theorem first_linkBefore (c : Chain α) (place target : Option Id) :
    (c.linkBefore place target).first = c.first := by
  cases place <;> rfl

@[simp] theorem size_linkAfter (c : Chain α) (place target : Option Id) :
    (c.linkAfter place target).nodes.size = c.nodes.size := by
  cases place <;> simp [linkAfter]

@[simp] theorem size_linkBefore (c : Chain α) (place target : Option Id) :
    (c.linkBefore place target).nodes.size = c.nodes.size := by
  cases place <;> simp [linkBefore]

theorem sound_linkAfter (h : c.nodes.Sound) (place target : Option Id) :
    (c.linkAfter place target).nodes.Sound := by
  cases place with
  | none => exact h
  | some p => exact h.modify p _

theorem sound_linkBefore (h : c.nodes.Sound) (place target : Option Id) :
    (c.linkBefore place target).nodes.Sound := by
  cases place with
  | none => exact h
  | some p => exact h.modify p _

/-- The chain spells the row `s`. -/
structure Holds (c : Chain α) (s : List (Id × α)) : Prop where
  sound : c.nodes.Sound
  distinct : Distinct s
  first : c.first = firstId none s
  last : c.last = lastId none s
  nodes : ∀ id, c.nodes.get? id = nodeIn none none s id
  size : c.nodes.size = s.length

/-- The chain spells the row `s`, but for a node at `id` that no link leads to. -/
structure HoldsApart (c : Chain α) (s : List (Id × α)) (id : Id) (node : Node α) : Prop where
  sound : c.nodes.Sound
  distinct : Distinct s
  absent : hasKey s id = false
  first : c.first = firstId none s
  last : c.last = lastId none s
  apart : c.nodes.get? id = some node
  nodes : ∀ other, other ≠ id → c.nodes.get? other = nodeIn none none s other
  size : c.nodes.size = s.length + 1

theorem holds_empty : (empty : Chain α).Holds [] where
  sound := Arena.sound_empty
  distinct := distinct_nil
  first := rfl
  last := rfl
  nodes := Arena.get?_empty
  size := rfl

namespace HoldsApart

variable {node : Node α}

theorem vacate (h : c.HoldsApart s id node) :
    Holds { c with nodes := (c.nodes.remove id).2 } s where
  sound := h.sound.remove id
  distinct := h.distinct
  first := h.first
  last := h.last
  nodes other := by
    rw [Arena.get?_remove]
    split
    · next he => rw [he, nodeIn_eq_none h.absent]
    · next he => exact h.nodes other he
  size := by simp [Arena.size_remove h.apart, h.size]

theorem link (h : c.HoldsApart s id { value := x, before := c.last }) :
    Holds { c.linkAfter c.last (some id) with last := some id } (s ++ [(id, x)]) where
  sound := sound_linkAfter h.sound _ _
  distinct := h.distinct.push h.absent
  first := by
    rw [first_linkAfter, h.last, h.first, firstId_append]
    cases s <;> simp [firstId, lastId_none_iff]
  last := (lastId_concat none s (id, x)).symm
  nodes other := by
    change (c.linkAfter c.last (some id)).nodes.get? other = _
    rw [get?_linkAfter, nodeIn_append]
    by_cases he : other = id
    · subst he
      have hne : c.last ≠ some other := by
        rw [h.last]
        exact not_lastId h.absent
      rw [if_neg hne, h.apart, nodeIn_eq_none h.absent]
      simp [nodeIn, firstId, h.last]
    · rw [h.nodes other he, firstId, nodeIn_after h.distinct none (some id), h.last]
      simp [nodeIn, he]
  size := by simp [h.size]

theorem attachBack (h : c.HoldsApart s id node) : (c.attachBack id).Holds (s ++ [(id, node.value)]) := by
  have hget := Arena.get?_modify c.nodes id
  have hplaced : HoldsApart { c with nodes := c.nodes.modify id fun n ↦
      { value := n.value, before := c.last } } s id { value := node.value, before := c.last } := by
    refine ⟨h.sound.modify id _, h.distinct, h.absent, h.first, h.last, ?_, ?_, ?_⟩
    · simp [hget, h.apart]
    · intro other hne
      simp [hget, hne, h.nodes]
    · simp [h.size]
  exact hplaced.link

end HoldsApart

namespace Holds

theorem get? (h : c.Holds s) (id : Id) : c.get? id = value? s id := by
  rw [Chain.get?, h.nodes, map_value_nodeIn]

theorem get?_eq_some (h : c.Holds s) : c.get? id = some x ↔ (id, x) ∈ s := by
  rw [h.get?, value?, Option.map_eq_some_iff]
  constructor
  · rintro ⟨e, he, rfl⟩
    have hid : e.1 = id := by simpa using beq_of_lookup? he
    rw [← hid]
    exact mem_of_lookup? he
  · intro hx
    exact ⟨(id, x), h.distinct.lookup?_eq_some.2 ⟨hx, beq_self_eq_true id⟩, rfl⟩

theorem isSome_get? (h : c.Holds s) (id : Id) : (c.nodes.get? id).isSome = hasKey s id := by
  rw [h.nodes, isSome_nodeIn]

theorem node_eq_none (h : c.Holds s) (hid : hasKey s id = false) :
    c.nodes.get? id = none := by
  rw [h.nodes, nodeIn_eq_none hid]

theorem node_split (h : c.Holds (l ++ (id, x) :: r)) : c.nodes.get? id =
    some { value := x, before := lastId none l, after := firstId none r } := by
  rw [h.nodes, nodeIn_split h.distinct]

theorem pushBack (h : c.Holds s) (x : α) : hasKey s (c.pushBack x).1 = false ∧
    (c.pushBack x).2.Holds (s ++ [((c.pushBack x).1, x)]) := by
  let node : Node α := { value := x, before := c.last }
  have hfresh : hasKey s (c.nodes.insert node).1 = false := by
    rw [← h.isSome_get?, h.sound.get?_fresh]
    rfl
  have happart : HoldsApart { c with nodes := (c.nodes.insert node).2 } s
      (c.nodes.insert node).1 node := by
    refine ⟨h.sound.insert node, h.distinct, hfresh, h.first, h.last, ?_, ?_, ?_⟩
    · simp [h.sound.get?_insert]
    · intro other hne
      simp [h.sound.get?_insert, hne, h.nodes]
    · simp [h.size]
  exact ⟨hfresh, happart.link⟩

theorem detach (h : c.Holds (l ++ (id, x) :: r)) :
    (c.detach id { value := x, before := lastId none l, after := firstId none r }).HoldsApart
      (l ++ r) id { value := x } := by
  obtain ⟨hl, hr⟩ := h.distinct.around (beq_self_eq_true id)
  have hd : Distinct (l ++ r) := h.distinct.sublist (by simp)
  refine ⟨?_, hd, by simp [hasKey_append, hl, hr], ?_, ?_, ?_, fun other hne ↦ ?_, ?_⟩
  · exact (sound_linkBefore (sound_linkAfter h.sound _ _) _ _).modify id _
  · simp only [Chain.detach, first_linkBefore, first_linkAfter, h.first, firstId_append]
    cases l <;> simp [firstId, lastId_none_iff]
  · simp only [Chain.detach, last_linkBefore, last_linkAfter, h.last, lastId_append]
    cases r <;> simp [firstId, lastId]
  · simp only [Chain.detach, Arena.get?_modify, if_true, get?_linkBefore, get?_linkAfter]
    rw [if_neg (not_firstId hr), if_neg (not_lastId hl), h.node_split]
    rfl
  · simp only [Chain.detach, Arena.get?_modify, if_neg hne, get?_linkBefore, get?_linkAfter, h.nodes,
      nodeIn_append]
    -- only the last node of `l` and the first one of `r` get a new neighbour
    cases hin : hasKey l other with
    | true =>
      have hout := hd.not_hasKey_of_append hin
      have hdl : Distinct l := hd.sublist (List.sublist_append_left l r)
      rw [if_neg (not_firstId hout), nodeIn_after hdl (some id) (firstId none r)]
      simp [nodeIn, hne, nodeIn_eq_none hout]
    | false =>
      rw [if_neg (not_lastId hin), nodeIn_before r (some id) (lastId none l)]
      simp [nodeIn, hne, nodeIn_eq_none hin]
  · simp [Chain.detach, h.size]
    omega

theorem remove (h : c.Holds s) (id : Id) :
    (c.remove id).1 = value? s id ∧ (c.remove id).2.Holds (without s id) := by
  cases hin : hasKey s id with
  | false =>
    rw [Chain.remove, h.node_eq_none hin, without_of_absent hin, value?, lookup?_eq_none.2 hin]
    exact ⟨rfl, h⟩
  | true =>
    obtain ⟨l, x, r, rfl⟩ := exists_split_of_hasKey hin
    have happart := h.detach
    rw [Chain.remove, h.node_split, h.distinct.value?_split (beq_self_eq_true id),
      h.distinct.without_split (beq_self_eq_true id)]
    refine ⟨?_, happart.vacate⟩
    simp [Arena.fst_remove, happart.apart]

theorem moveToBack (h : c.Holds s) (id : Id) :
    (c.moveToBack id).1 = hasKey s id ∧ (c.moveToBack id).2.Holds (toEnd s id) := by
  cases hin : hasKey s id with
  | false =>
    rw [Chain.moveToBack, h.node_eq_none hin, toEnd_of_absent hin]
    exact ⟨rfl, h⟩
  | true =>
    obtain ⟨l, x, r, rfl⟩ := exists_split_of_hasKey hin
    rw [Chain.moveToBack, h.node_split, h.distinct.toEnd_split (beq_self_eq_true id)]
    refine ⟨rfl, ?_⟩
    dsimp only
    split
    · next hlast =>
      rw [h.last, lastId_append] at hlast
      cases r with
      | nil => simpa using h
      | cons p r => exact absurd hlast (not_lastId (h.distinct.around (beq_self_eq_true id)).2)
    · exact h.detach.attachBack

theorem modify (h : c.Holds s) (id : Id) (f : α → α) : (c.modify id f).Holds (alter s id f) where
  sound := h.sound.modify id _
  distinct := h.distinct.alter id f
  first := by
    rw [firstId_eq_head?, ← List.head?_map, keys_alter, List.head?_map, ← firstId_eq_head?]
    exact h.first
  last := by
    rw [lastId_alter]
    exact h.last
  nodes other := by
    rw [nodeIn_alter, Chain.modify, Arena.get?_modify, h.nodes, h.nodes]
  size := by simpa [Chain.modify] using h.size

theorem popFront (h : c.Holds s) :
    c.popFront.1 = s.head?.map Prod.snd ∧ c.popFront.2.Holds s.tail := by
  cases s with
  | nil =>
    rw [Chain.popFront, h.first]
    exact ⟨rfl, h⟩
  | cons p s =>
    have hd : Distinct ([] ++ p :: s) := h.distinct
    have hp := h.remove p.1
    rw [Chain.popFront, h.first]
    rwa [← List.nil_append (p :: s), hd.value?_split (beq_self_eq_true p.1),
      hd.without_split (beq_self_eq_true p.1)] at hp

theorem popBack (h : c.Holds s) :
    c.popBack.1 = s.getLast?.map Prod.snd ∧ c.popBack.2.Holds s.dropLast := by
  rcases s.eq_nil_or_concat' with rfl | ⟨l, p, rfl⟩
  · rw [Chain.popBack, h.last]
    exact ⟨rfl, h⟩
  · have hp := h.remove p.1
    rw [h.distinct.value?_split (beq_self_eq_true p.1),
      h.distinct.without_split (beq_self_eq_true p.1), List.append_nil] at hp
    rw [Chain.popBack, h.last, lastId_concat]
    simpa using hp

theorem walk (h : c.Holds (l ++ r)) {n : ℕ} (hn : r.length ≤ n) :
    c.walk n (firstId none r) = r.map Prod.fst := by
  induction r generalizing l n with
  | nil => cases n <;> rfl
  | cons p r ih =>
    obtain ⟨n, rfl⟩ : ∃ m, n = m + 1 := ⟨n - 1, by rw [List.length_cons] at hn; omega⟩
    have hnext : c.walk n (firstId none r) = r.map Prod.fst :=
      ih (l := l ++ [p]) (by simpa using h) (by simpa using hn)
    simp [Chain.walk, h.node_split, hnext]

theorem ids (h : c.Holds s) : c.ids = s.map Prod.fst := by
  have hn : s.length ≤ c.nodes.slots.size := by
    have ht := h.sound.total
    have hs := h.size
    omega
  rw [Chain.ids, h.first]
  exact walk (l := []) h hn

theorem length (h : c.Holds s) : s.length = c.size := h.size.symm

theorem toList (h : c.Holds s) : c.toList = s.map Prod.snd := by
  have hget : ∀ p ∈ s, c.get? p.1 = some p.2 := fun p hp ↦ h.get?_eq_some.2 hp
  rw [Chain.toList, h.ids, List.filterMap_map, ← List.filterMap_eq_map]
  exact List.filterMap_congr hget

theorem first? (h : c.Holds s) : c.first? = s.head?.map Prod.snd := by
  cases s with
  | nil => simp [Chain.first?, h.first, firstId]
  | cons p s => simp [Chain.first?, h.first, h.get?_eq_some.2 List.mem_cons_self]

theorem last? (h : c.Holds s) : c.last? = s.getLast?.map Prod.snd := by
  rcases s.eq_nil_or_concat' with rfl | ⟨l, p, rfl⟩
  · simp [Chain.last?, h.last, lastId]
  · have hp : c.get? p.1 = some p.2 := h.get?_eq_some.2 (by simp)
    simp [Chain.last?, h.last, lastId_concat, hp]

end Holds

end Holdall.Slot.Chain
