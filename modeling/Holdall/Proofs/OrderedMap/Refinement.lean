import Holdall.Item.Basic
import Holdall.OrderedMap.Traversal
import Holdall.Proofs.OrderedMap.Tracking
import Holdall.Proofs.Run
import Holdall.Proofs.Slot.Cursor

namespace Holdall

variable {K V : Type} [BEq K]

namespace OrderedMap

inductive Request (K V : Type) : Type 1
  | insert (k : K) (v : V)
  | extend (pairs : List (K × V))
  | get (k : K)
  | modify (k : K) (f : V → V)
  | peek (k : K)
  | contains (k : K)
  | touch (k : K)
  | remove (k : K)
  | removeEntry (k : K)
  | eldest
  | newest
  | popEldest
  | popNewest
  | retain {σ : Type} (visit : K → V → StateM σ (V × Bool)) (start : σ)
  | clear

inductive Answer (K V : Type)
  | value (v : Option V)
  | entry (e : Option (K × V))
  | flag (b : Bool)
  | done
  deriving DecidableEq, Repr

def respond [Hashable K] (m : OrderedMap K V) : Request K V → Answer K V × OrderedMap K V
  | .insert k v => (m.insert k v).map .value id
  | .extend pairs => (.done, m.extend pairs)
  | .get k => (m.get k).map .value id
  | .modify k f => (m.modify k f).map .value id
  | .peek k => (.value (m.peek? k), m)
  | .contains k => (.flag (m.contains k), m)
  | .touch k => (m.touch k).map .flag id
  | .remove k => (m.remove k).map .value id
  | .removeEntry k => (m.removeEntry k).map .entry id
  | .eldest => (.entry m.eldest?, m)
  | .newest => (.entry m.newest?, m)
  | .popEldest => m.popEldest.map .entry id
  | .popNewest => m.popNewest.map .entry id
  | .retain visit start => (.done, ((m.retainM visit).run start).1)
  | .clear => (.done, m.clear)

end OrderedMap

namespace Association

open OrderedMap

variable {s : List (K × V)} {k : K}

/-- A use of a key moves its entry to the end, where entries stand in order of access. -/
def use (order : EntryOrder) (s : List (K × V)) (k : K) : List (K × V) :=
  match order with
  | .insertion => s
  | .access => toEnd s k

/-- A new key goes to the end; a key that is there already gets the value, which is a use of it. -/
def insert (order : EntryOrder) (s : List (K × V)) (k : K) (v : V) : List (K × V) :=
  if hasKey s k then use order (alter s k fun _ ↦ v) k else s ++ [(k, v)]

def respond (order : EntryOrder) (s : List (K × V)) : Request K V → Answer K V × List (K × V)
  | .insert k v => (.value (value? s k), insert order s k v)
  | .extend pairs => (.done, pairs.foldl (fun s (k, v) ↦ insert order s k v) s)
  | .get k => (.value (value? s k), use order s k)
  | .modify k f => (.value (value? s k), alter (use order s k) k f)
  | .peek k => (.value (value? s k), s)
  | .contains k => (.flag (hasKey s k), s)
  | .touch k => (.flag (hasKey s k), use order s k)
  | .remove k => (.value (value? s k), without s k)
  | .removeEntry k => (.entry (lookup? s k), without s k)
  | .eldest => (.entry s.head?, s)
  | .newest => (.entry s.getLast?, s)
  | .popEldest => (.entry s.head?, s.tail)
  | .popNewest => (.entry s.getLast?, s.dropLast)
  | .retain visit start => (.done, ((siftM visit s).run start).1)
  | .clear => (.done, [])

theorem use_of_absent (order : EntryOrder) (h : hasKey s k = false) : use order s k = s := by
  cases order with
  | insertion => rfl
  | access => exact toEnd_of_absent h

theorem use_perm (order : EntryOrder) (s : List (K × V)) (k : K) : (use order s k).Perm s := by
  cases order with
  | insertion => exact .refl s
  | access => exact toEnd_perm s k

@[simp] theorem length_use (order : EntryOrder) (s : List (K × V)) (k : K) :
    (use order s k).length = s.length := (use_perm order s k).length_eq

theorem length_insert (order : EntryOrder) (s : List (K × V)) (k : K) (v : V) :
    (insert order s k v).length = if hasKey s k then s.length else s.length + 1 := by
  rw [insert]
  split <;> simp

theorem Distinct.values_insert [EquivBEq K] (h : Distinct s) (order : EntryOrder) (k : K) (v : V) :
    (v :: s.map Prod.snd).Perm ((value? s k).toList ++ (insert order s k v).map Prod.snd) := by
  rw [insert]
  cases hk : hasKey s k with
  | false =>
    rw [value?_of_absent hk, if_neg Bool.false_ne_true, List.map_append]
    exact (List.perm_append_singleton v _).symm
  | true =>
    obtain ⟨e, he, hek⟩ := exists_mem_of_hasKey hk
    obtain ⟨l, r, rfl⟩ := List.append_of_mem he
    have hused : ((use order (Association.alter (l ++ e :: r) k fun _ ↦ v) k).map Prod.snd).Perm
        (v :: (l ++ r).map Prod.snd) := by
      refine ((use_perm order _ k).map Prod.snd).trans ?_
      rw [h.alter_split hek, List.map_append, List.map_append, List.map_cons]
      exact List.perm_middle
    have hold : ((l ++ e :: r).map Prod.snd).Perm (e.2 :: (l ++ r).map Prod.snd) := by
      rw [List.map_append, List.map_append, List.map_cons]
      exact List.perm_middle
    rw [h.value?_split hek, if_pos rfl]
    exact (hold.cons v).trans ((List.Perm.swap e.2 v _).trans (hused.symm.cons e.2))

end Association

namespace OrderedMap

open Association Slot

variable [Hashable K] {m : OrderedMap K V} {order : EntryOrder} {es : List (K × V)} {k : K} {i : Id}

/-- The map stands for the list `es`. -/
structure Shows (m : OrderedMap K V) (order : EntryOrder) (es : List (K × V)) : Prop where
  order_eq : m.order = order
  tracked : ∃ s, m.Tracks s ∧ s.map Prod.snd = es

theorem shows_empty (order : EntryOrder) : (empty order : OrderedMap K V).Shows order [] :=
  ⟨rfl, [], tracks_empty order, rfl⟩

namespace Shows

theorem distinct (h : m.Shows order es) : Distinct es := by
  obtain ⟨-, s, hs, rfl⟩ := h
  exact hs.distinct

theorem toList (h : m.Shows order es) : m.toList = es := by
  obtain ⟨-, s, hs, rfl⟩ := h
  exact hs.chain.toList

theorem size (h : m.Shows order es) : m.size = es.length := by
  obtain ⟨-, s, hs, rfl⟩ := h
  rw [List.length_map]
  exact hs.size

theorem cursor_yields (h : m.Shows order es) : m.cursor.Yields es := by
  obtain ⟨-, s, hs, rfl⟩ := h
  exact Cursor.yields_start hs.chain

theorem index_eq_none (h : m.Shows order es) : m.index[k]? = none ↔ hasKey es k = false := by
  obtain ⟨-, s, hs, rfl⟩ := h
  exact hs.index_eq_none

theorem hasKey_of_index (h : m.Shows order es) (hi : m.index[k]? = some i) : hasKey es k = true := by
  rw [← Bool.not_eq_false, ← h.index_eq_none, hi]
  simp

theorem eldest? (h : m.Shows order es) : m.eldest? = es.head? := by
  obtain ⟨-, s, hs, rfl⟩ := h
  rw [List.head?_map]
  exact hs.chain.first?

theorem newest? (h : m.Shows order es) : m.newest? = es.getLast? := by
  obtain ⟨-, s, hs, rfl⟩ := h
  rw [List.getLast?_map]
  exact hs.chain.last?

theorem length (h : m.Shows order es) : m.entries.size = es.length := by
  obtain ⟨-, s, hs, rfl⟩ := h
  rw [List.length_map]
  exact hs.chain.length.symm

theorem beq_eq [BEq V] {n : OrderedMap K V} {order' : EntryOrder} {es' : List (K × V)}
    (h : m.Shows order es) (h' : n.Shows order' es') : (m == n) = (es == es') := by
  change (m.entries.size == n.entries.size && m.toList == n.toList) = _
  rw [h.length, h'.length, h.toList, h'.toList]
  apply Bool.and_eq_right_iff_imp.2
  intro heq
  rw [List.length_eq_of_beq heq, beq_self_eq_true]

variable [EquivBEq K]

theorem entry (h : m.Shows order es) (hi : m.index[k]? = some i) : m.entries.get? i = lookup? es k := by
  obtain ⟨-, s, hs, rfl⟩ := h
  exact hs.entry hi

theorem setValue (h : m.Shows order es) (hi : m.index[k]? = some i) (f : V → V) :
    (m.setValue i f).Shows order (alter es k f) := by
  obtain ⟨rfl, s, hs, rfl⟩ := h
  exact ⟨rfl, _, hs.setValue i f, map_alter (hs.beq_id_eq hi) fun _ ↦ rfl⟩

theorem use (h : m.Shows order es) (hi : m.index[k]? = some i) :
    (m.use i).Shows order (Association.use order es k) := by
  obtain ⟨rfl, s, hs, rfl⟩ := h
  refine ⟨order_use m i, _, hs.use i, ?_⟩
  cases m.order with
  | insertion => rfl
  | access => exact map_toEnd (hs.beq_id_eq hi)

theorem peek? (h : m.Shows order es) (k : K) : m.peek? k = value? es k := by
  rw [OrderedMap.peek?]
  cases hi : m.index[k]? with
  | none => exact (value?_of_absent (h.index_eq_none.1 hi)).symm
  | some i =>
    simp only [Option.bind_eq_bind, Option.bind_some, h.entry hi, value?]
    cases lookup? es k <;> rfl

theorem get (h : m.Shows order es) (k : K) :
    (m.get k).1 = value? es k ∧ (m.get k).2.Shows order (Association.use order es k) := by
  rw [OrderedMap.get]
  cases hi : m.index[k]? with
  | none =>
    have hk := h.index_eq_none.1 hi
    rw [value?_of_absent hk, use_of_absent order hk]
    exact ⟨rfl, h⟩
  | some i => exact ⟨congrArg (Option.map Prod.snd) (h.entry hi), h.use hi⟩

theorem modify (h : m.Shows order es) (k : K) (f : V → V) : (m.modify k f).1 = value? es k ∧
    (m.modify k f).2.Shows order (alter (Association.use order es k) k f) := by
  rw [OrderedMap.modify]
  cases hi : m.index[k]? with
  | none =>
    have hk := h.index_eq_none.1 hi
    rw [value?_of_absent hk, use_of_absent order hk, alter_of_absent f hk]
    exact ⟨rfl, h⟩
  | some i =>
    have hi' : (m.use i).index[k]? = some i := by rwa [index_use]
    exact ⟨congrArg (Option.map Prod.snd) (h.entry hi), (h.use hi).setValue hi' f⟩

theorem touch (h : m.Shows order es) (k : K) :
    (m.touch k).1 = hasKey es k ∧ (m.touch k).2.Shows order (Association.use order es k) := by
  rw [OrderedMap.touch]
  cases hi : m.index[k]? with
  | none =>
    have hk := h.index_eq_none.1 hi
    rw [hk, use_of_absent order hk]
    exact ⟨rfl, h⟩
  | some i => exact ⟨(h.hasKey_of_index hi).symm, h.use hi⟩

variable [LawfulHashable K]

theorem contains (h : m.Shows order es) (k : K) : m.contains k = hasKey es k := by
  obtain ⟨-, s, hs, rfl⟩ := h
  exact hs.contains_index k

theorem insert (h : m.Shows order es) (k : K) (v : V) : (m.insert k v).1 = value? es k ∧
    (m.insert k v).2.Shows order (Association.insert order es k v) := by
  rw [OrderedMap.insert]
  cases hi : m.index[k]? with
  | none =>
    have hk := h.index_eq_none.1 hi
    rw [value?_of_absent hk, Association.insert, hk]
    obtain ⟨rfl, s, hs, rfl⟩ := h
    exact ⟨rfl, rfl, _, hs.push hk v, List.map_append⟩
  | some i =>
    rw [Association.insert, h.hasKey_of_index hi]
    exact ⟨congrArg (Option.map Prod.snd) (h.entry hi), (h.setValue hi fun _ ↦ v).use hi⟩

theorem removeEntry (h : m.Shows order es) (k : K) :
    (m.removeEntry k).1 = lookup? es k ∧ (m.removeEntry k).2.Shows order (without es k) := by
  rw [OrderedMap.removeEntry]
  cases hi : m.index[k]? with
  | none =>
    have hk := h.index_eq_none.1 hi
    rw [lookup?_eq_none.2 hk, without_of_absent hk]
    exact ⟨rfl, h⟩
  | some i =>
    obtain ⟨rfl, s, hs, rfl⟩ := h
    obtain ⟨l, e, r, rfl, hek⟩ := hs.split_of_index hi
    have hd := hs.distinct
    rw [List.map_append, List.map_cons] at hd ⊢
    have hc := hs.chain.remove i
    rw [hs.chain.distinct.value?_split (beq_self_eq_true i),
      hs.chain.distinct.without_split (beq_self_eq_true i)] at hc
    rw [hd.lookup?_split hek, hd.without_split hek]
    exact ⟨hc.1, rfl, _, hs.drop hc.2 hek, List.map_append⟩

theorem remove (h : m.Shows order es) (k : K) :
    (m.remove k).1 = value? es k ∧ (m.remove k).2.Shows order (without es k) := by
  have he := h.removeEntry k
  exact ⟨congrArg (Option.map Prod.snd) he.1, he.2⟩

theorem extend (h : m.Shows order es) (pairs : List (K × V)) : (m.extend pairs).Shows order
    (pairs.foldl (fun s (k, v) ↦ Association.insert order s k v) es) := by
  induction pairs generalizing m es with
  | nil => exact h
  | cons p pairs ih => exact ih (h.insert p.1 p.2).2

theorem popEldest (h : m.Shows order es) :
    m.popEldest.1 = es.head? ∧ m.popEldest.2.Shows order es.tail := by
  obtain ⟨rfl, s, hs, rfl⟩ := h
  rw [List.head?_map, ← List.map_tail]
  exact ⟨hs.popEldest.1, order_forget _ _, _, hs.popEldest.2, rfl⟩

theorem popNewest (h : m.Shows order es) :
    m.popNewest.1 = es.getLast? ∧ m.popNewest.2.Shows order es.dropLast := by
  obtain ⟨rfl, s, hs, rfl⟩ := h
  rw [List.getLast?_map, ← List.map_dropLast]
  exact ⟨hs.popNewest.1, order_forget _ _, _, hs.popNewest.2, rfl⟩

theorem retain {σ : Type} (h : m.Shows order es) (visit : K → V → StateM σ (V × Bool)) (start : σ) :
    let left := (siftM visit es).run start
    let rest := (m.retainM visit).run start
    rest.2 = left.2 ∧ rest.1.Shows order left.1 := by
  obtain ⟨rfl, s, hs, rfl⟩ := h
  have hs' : m.Tracks ([] ++ s) := hs
  obtain ⟨hend, ho, t, ht, hl⟩ := hs'.retainAt visit start
  rw [retainM, hs.chain.ids]
  exact ⟨hend, ho, t, ht, hl⟩

theorem respond (h : m.Shows order es) (r : Request K V) :
    (m.respond r).1 = (Association.respond order es r).1 ∧
      (m.respond r).2.Shows order (Association.respond order es r).2 := by
  cases r with
  | insert k v => exact ⟨congrArg Answer.value (h.insert k v).1, (h.insert k v).2⟩
  | extend pairs => exact ⟨rfl, h.extend pairs⟩
  | get k => exact ⟨congrArg Answer.value (h.get k).1, (h.get k).2⟩
  | modify k f => exact ⟨congrArg Answer.value (h.modify k f).1, (h.modify k f).2⟩
  | peek k => exact ⟨congrArg Answer.value (h.peek? k), h⟩
  | contains k => exact ⟨congrArg Answer.flag (h.contains k), h⟩
  | touch k => exact ⟨congrArg Answer.flag (h.touch k).1, (h.touch k).2⟩
  | remove k => exact ⟨congrArg Answer.value (h.remove k).1, (h.remove k).2⟩
  | removeEntry k => exact ⟨congrArg Answer.entry (h.removeEntry k).1, (h.removeEntry k).2⟩
  | eldest => exact ⟨congrArg Answer.entry h.eldest?, h⟩
  | newest => exact ⟨congrArg Answer.entry h.newest?, h⟩
  | popEldest => exact ⟨congrArg Answer.entry h.popEldest.1, h.popEldest.2⟩
  | popNewest => exact ⟨congrArg Answer.entry h.popNewest.1, h.popNewest.2⟩
  | retain visit start => exact ⟨rfl, (h.retain visit start).2⟩
  | clear => exact ⟨rfl, h.order_eq ▸ shows_empty m.order⟩

theorem after (h : m.Shows order es) (rs : List (Request K V)) :
    (Run.after OrderedMap.respond m rs).Shows order (Run.after (Association.respond order) es rs) :=
  Run.after_simulate (P := fun m es ↦ Shows m order es) (fun _ _ r _ h ↦ (h.respond r).2) h

end Shows

variable [EquivBEq K] [LawfulHashable K]

/-- Step by step, the map gives the answers of the list, and its cursor meets the entries of the list. -/
theorem steps_refine (order : EntryOrder) (rs : List (Request K V)) :
    List.Forall₂ (fun x y ↦ x.1 = y.1 ∧ x.2.cursor.Yields y.2 ∧ Distinct y.2)
      (Run.steps respond (empty order : OrderedMap K V) rs)
      (Run.steps (Association.respond order) [] rs) := by
  have hsteps := Run.steps_simulate (P := fun m es ↦ Shows m order es)
    (fun _ _ r h ↦ h.respond r) (shows_empty order) rs
  exact hsteps.imp fun _ _ h ↦ ⟨h.1, h.2.cursor_yields, h.2.distinct⟩

theorem steps_refine_folded : EquivBEq Item ∧ LawfulHashable Item ∧
    List.Forall₂ (fun x y ↦ x.1 = y.1 ∧ x.2.cursor.Yields y.2 ∧ Distinct y.2)
      (Run.steps respond (empty .access : OrderedMap Item ℕ)
        [.insert (.folded "Key") 1, .insert (.text "b") 2, .insert (.folded "KEY") 3, .popEldest])
      [(.value none, [(.folded "Key", 1)]),
        (.value none, [(.folded "Key", 1), (.text "b", 2)]),
        (.value (some 1), [(.text "b", 2), (.folded "Key", 3)]),
        (.entry (some (.text "b", 2)), [(.folded "Key", 3)])] :=
  ⟨inferInstance, inferInstance, steps_refine .access _⟩

end OrderedMap

end Holdall
