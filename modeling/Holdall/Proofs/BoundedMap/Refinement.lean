import Holdall.Proofs.BoundedMap.BoundedList

namespace Holdall

open Association

variable {K V L : Type} [BEq K]

namespace BoundedMap

variable [Hashable K] [Listener L K V]

def respond (m : BoundedMap K V L) :
    Request K V → Answer K V × BoundedMap K V L
  | .insert k v => (m.insert k v).map .value id
  | .get k => (m.get k).map .value id
  | .modify k f => (m.modify k f).map .value id
  | .peek k => (.value (m.peek? k), m)
  | .contains k => (.flag (m.contains k), m)
  | .touch k => (m.touch k).map .flag id
  | .remove k => (m.remove k).map .value id
  | .popEldest => m.popEldest.map .entry id
  | .setMaxSize n => (m.setMaxSize n).map .ofExcept id
  | .clear => (.done, m.clear)
  | .resetStats => (.done, m.resetStats)

def hearing (l : L) (entries : List (K × V)) : L :=
  entries.foldl (fun l e ↦ Listener.evicted l e.1 e.2) l

/-- The map stands for the bounded list `b`, and its listener was `start` at first. -/
structure Shows (m : BoundedMap K V L) (start : L) (order : EntryOrder)
    (b : BoundedList K V) : Prop where
  entries : m.entries.Shows order b.entries
  maxSize : m.maxSize = b.maxSize
  listener : m.listener = hearing start b.dropped

variable {m : BoundedMap K V L} {start : L} {order : EntryOrder}
  {b : BoundedList K V}

theorem shows_create (maxSize : ℕ) (start : L) (order : EntryOrder) :
    (create maxSize start order : BoundedMap K V L).Shows start order { maxSize } :=
  ⟨OrderedMap.shows_empty order, rfl, rfl⟩

namespace Shows

theorem of_eq {n : BoundedMap K V L} (h : m.Shows start order b) {es : List (K × V)}
    (hes : n.entries.Shows order es) (hm : n.maxSize = m.maxSize) (hl : n.listener = m.listener) :
    n.Shows start order { b with entries := es } :=
  ⟨hes, hm.trans h.maxSize, hl.trans h.listener⟩

variable [EquivBEq K] [LawfulHashable K]

theorem drop_cons {e : K × V} {es dropped : List (K × V)} {maxSize : ℕ}
    (h : m.Shows start order ⟨e :: es, maxSize, dropped⟩) :
    ∃ rest, m.entries.popEldest = (some e, rest) ∧
      ({ m with entries := rest }.notify e.1 e.2).Shows start order ⟨es, maxSize, dropped ++ [e]⟩ := by
  obtain ⟨he, hrest⟩ := h.entries.popEldest
  have hl : Listener.evicted m.listener e.1 e.2 = hearing start (dropped ++ [e]) := by
    rw [h.listener, hearing, hearing, List.foldl_append]
    rfl
  exact ⟨m.entries.popEldest.2, Prod.ext he rfl, hrest, h.maxSize, hl⟩

theorem dropEldest_of_nil {dropped : List (K × V)} {maxSize : ℕ}
    (h : m.Shows start order ⟨[], maxSize, dropped⟩) (n : ℕ) : m.dropEldest n = m := by
  cases n with
  | zero => rfl
  | succ n =>
    have hpop : m.entries.popEldest = (none, m.entries.popEldest.2) :=
      Prod.ext h.entries.popEldest.1 rfl
    rw [BoundedMap.dropEldest, hpop]

theorem dropEldest (h : m.Shows start order b) (n : ℕ) :
    (m.dropEldest n).Shows start order (b.dropEldest n) := by
  induction n generalizing m b with
  | zero => simpa [BoundedMap.dropEldest, BoundedList.dropEldest] using h
  | succ n ih =>
    obtain ⟨es, maxSize, dropped⟩ := b
    cases es with
    | nil =>
      rw [h.dropEldest_of_nil]
      simpa [BoundedList.dropEldest] using h
    | cons e es =>
      obtain ⟨rest, hpop, hnext⟩ := h.drop_cons
      rw [BoundedMap.dropEldest, hpop]
      simpa [BoundedList.dropEldest] using ih hnext

theorem dropOverflow (h : m.Shows start order b) : m.dropOverflow.Shows start order b.trim := by
  rw [BoundedMap.dropOverflow, size, h.entries.size, h.maxSize]
  exact h.dropEldest _

/-- The eldest entries are dropped one by one as long as there are more than the bound allows. -/
theorem dropOverflow_eq (h : m.Shows start order b) : m.dropOverflow =
    if m.maxSize < m.size then
      match m.entries.popEldest with
      | (some (k, v), entries) => ({ m with entries }.notify k v).dropOverflow
      | (none, _) => m
    else m := by
  obtain ⟨es, maxSize, dropped⟩ := b
  have hsize : m.size = es.length := h.entries.size
  split
  next hover =>
    cases es with
    | nil => exact absurd (hsize ▸ hover) (Nat.not_lt_zero _)
    | cons e es =>
      obtain ⟨rest, hpop, hnext⟩ := h.drop_cons
      have hleft : m.size - m.maxSize = es.length - m.maxSize + 1 := by
        rw [List.length_cons] at hsize
        omega
      have hrest : ({ m with entries := rest }.notify e.1 e.2).size = es.length := hnext.entries.size
      rw [BoundedMap.dropOverflow, hleft, BoundedMap.dropEldest, hpop]
      dsimp only
      rw [BoundedMap.dropOverflow, hrest]
      rfl
  next hfits =>
    rw [BoundedMap.dropOverflow, Nat.sub_eq_zero_of_le (Nat.not_lt.1 hfits)]
    rfl

theorem insert (h : m.Shows start order b) (k : K) (v : V) :
    (m.insert k v).1 = value? b.entries k ∧ (m.insert k v).2.Shows start order
      { b with entries := Association.insert order b.entries k v }.trim := by
  obtain ⟨hv, hes⟩ := h.entries.insert k v
  rw [BoundedMap.insert]
  generalize m.entries.insert k v = stored at hv hes
  obtain ⟨previous, entries⟩ := stored
  refine ⟨hv, dropOverflow ?_⟩
  cases previous with
  | none => exact h.of_eq hes rfl rfl
  | some v₀ => exact h.of_eq hes rfl rfl

theorem get (h : m.Shows start order b) (k : K) : (m.get k).1 = value? b.entries k ∧
    (m.get k).2.Shows start order { b with entries := use order b.entries k } := by
  have hget := h.entries.get k
  rw [BoundedMap.get, contains, h.entries.contains]
  cases hk : hasKey b.entries k with
  | true => exact ⟨hget.1, h.of_eq hget.2 rfl rfl⟩
  | false =>
    rw [value?_of_absent hk, use_of_absent order hk]
    exact ⟨rfl, h.of_eq h.entries rfl rfl⟩

theorem modify (h : m.Shows start order b) (k : K) (f : V → V) :
    (m.modify k f).1 = value? b.entries k ∧ (m.modify k f).2.Shows start order
      { b with entries := alter (use order b.entries k) k f } := by
  have hmodify := h.entries.modify k f
  rw [BoundedMap.modify, contains, h.entries.contains]
  cases hk : hasKey b.entries k with
  | true => exact ⟨hmodify.1, h.of_eq hmodify.2 rfl rfl⟩
  | false =>
    rw [value?_of_absent hk, use_of_absent order hk, alter_of_absent f hk]
    exact ⟨rfl, h.of_eq h.entries rfl rfl⟩

theorem respond (h : m.Shows start order b) (r : Request K V) :
    (m.respond r).1 = (b.respond order r).1 ∧
      (m.respond r).2.Shows start order (b.respond order r).2 := by
  have hes := h.entries
  cases r with
  | insert k v => exact ⟨congrArg Answer.value (h.insert k v).1, (h.insert k v).2⟩
  | get k => exact ⟨congrArg Answer.value (h.get k).1, (h.get k).2⟩
  | modify k f => exact ⟨congrArg Answer.value (h.modify k f).1, (h.modify k f).2⟩
  | peek k => exact ⟨congrArg Answer.value (hes.peek? k), h⟩
  | contains k => exact ⟨congrArg Answer.flag (hes.contains k), h⟩
  | touch k => exact ⟨congrArg Answer.flag (hes.touch k).1, h.of_eq (hes.touch k).2 rfl rfl⟩
  | remove k => exact ⟨congrArg Answer.value (hes.remove k).1, h.of_eq (hes.remove k).2 rfl rfl⟩
  | popEldest => exact ⟨congrArg Answer.entry hes.popEldest.1, h.of_eq hes.popEldest.2 rfl rfl⟩
  | setMaxSize n =>
    cases n with
    | zero => exact ⟨rfl, h⟩
    | succ n =>
      have hm : Shows { m with maxSize := n + 1 } start order { b with maxSize := n + 1 } :=
        ⟨hes, rfl, h.listener⟩
      exact ⟨rfl, hm.dropOverflow⟩
  | clear => exact ⟨rfl, h.of_eq (hes.order_eq ▸ OrderedMap.shows_empty _) rfl rfl⟩
  | resetStats => exact ⟨rfl, h.of_eq hes rfl rfl⟩

end Shows

/-- What is seen of a bounded map after a step agrees with the bounded list. -/
structure Agrees (start : L) (x : Answer K V × BoundedMap K V L)
    (y : Answer K V × BoundedList K V) : Prop where
  answer : x.1 = y.1
  entries : x.2.cursor.Yields y.2.entries
  maxSize : x.2.maxSize = y.2.maxSize
  listener : x.2.listener = hearing start y.2.dropped
  size_le : x.2.size ≤ x.2.maxSize

variable [EquivBEq K] [LawfulHashable K]

/-- Step by step, the map agrees with the bounded list, and it refuses a bound without room. -/
theorem steps_agree (maxSize : ℕ) (start : L) (order : EntryOrder) (rs : List (Request K V)) :
    List.Forall₂ (Agrees start) (Run.steps respond (create maxSize start order : BoundedMap K V L) rs)
      (Run.steps (BoundedList.respond order) { maxSize } rs) ∧
    ∀ m : BoundedMap K V L, m.respond (.setMaxSize 0) = (.refused .noRoom, m) := by
  have hsteps := Run.steps_simulate (P := fun m b ↦ Shows m start order b ∧ b.Fits)
    (fun _ _ r h ↦ ⟨(h.1.respond r).1, (h.1.respond r).2, BoundedList.fits_respond order h.2 r⟩)
    ⟨shows_create (K := K) (V := V) maxSize start order, Nat.zero_le _⟩ rs
  refine ⟨hsteps.imp fun x y ⟨ha, hs, hf⟩ ↦ ?_, fun m ↦ rfl⟩
  refine ⟨ha, hs.entries.cursor_yields, hs.maxSize, hs.listener, ?_⟩
  rw [size, hs.entries.size, hs.maxSize]
  exact hf

theorem steps_agree_folded : EquivBEq Item ∧ LawfulHashable Item ∧
    List.Forall₂ (Agrees (⟨[]⟩ : Recorder Item ℕ))
      (Run.steps respond (create 2 ⟨[]⟩ : BoundedMap Item ℕ (Recorder Item ℕ))
        [.insert (.folded "A") 1, .insert (.text "b") 2, .get (.folded "a"), .insert (.text "c") 3,
          .setMaxSize 0, .setMaxSize 1, .remove (.text "c")])
      [(.value none, ⟨[(.folded "A", 1)], 2, []⟩),
        (.value none, ⟨[(.folded "A", 1), (.text "b", 2)], 2, []⟩),
        (.value (some 1), ⟨[(.text "b", 2), (.folded "A", 1)], 2, []⟩),
        (.value none, ⟨[(.folded "A", 1), (.text "c", 3)], 2, [(.text "b", 2)]⟩),
        (.refused .noRoom, ⟨[(.folded "A", 1), (.text "c", 3)], 2, [(.text "b", 2)]⟩),
        (.done, ⟨[(.text "c", 3)], 1, [(.text "b", 2), (.folded "A", 1)]⟩),
        (.value (some 3), ⟨[], 1, [(.text "b", 2), (.folded "A", 1)]⟩)] :=
  ⟨inferInstance, inferInstance, (steps_agree 2 (Recorder.mk []) .access _).1⟩

end BoundedMap

end Holdall
