import Holdall.Proofs.OrderedMap.Refinement
import Holdall.Proofs.Slot.Audit

namespace Holdall

variable {I α : Type}

namespace Traversal

/-- What `n` calls give, and what they leave. Where nothing is to come a call changes nothing. -/
def calls (next? : I → Option (α × I)) : ℕ → I → List (Option α) × I
  | 0, u => ([], u)
  | n + 1, u =>
    match next? u with
    | some (x, v) => (calls next? n v).map (some x :: ·) id
    | none => (calls next? n u).map (none :: ·) id

/-- Gives the items of `xs` and nothing after them. After each call it tells how many are to come, and a
call that gives an item takes one off a count that is not zero. -/
structure Sized (next? : I → Option (α × I)) (remaining : I → ℕ) (u : I) (xs : List α) : Prop where
  given n : (calls next? n u).1 = (xs.take n).map some ++ List.replicate (n - xs.length) none
  left n : remaining (calls next? n u).2 = xs.length - n
  counted n x v : next? (calls next? n u).2 = some (x, v) →
    remaining (calls next? n u).2 = remaining v + 1

/-- The same step by step. -/
inductive Counts (next? : I → Option (α × I)) (remaining : I → ℕ) : I → List α → Prop
  | done {u : I} : next? u = none → remaining u = 0 → Counts next? remaining u []
  | next {u v : I} {x : α} {xs : List α} : next? u = some (x, v) → remaining u = remaining v + 1 →
      Counts next? remaining v xs → Counts next? remaining u (x :: xs)

namespace Counts

variable {next? : I → Option (α × I)} {remaining : I → ℕ} {u : I} {xs : List α}

theorem remaining_eq (h : Counts next? remaining u xs) : remaining u = xs.length := by
  induction h with
  | done _ hend => exact hend
  | next _ hcount _ ih => rw [hcount, ih, List.length_cons]

theorem counted {x : α} {v : I} (h : Counts next? remaining u xs) (hnext : next? u = some (x, v)) :
    remaining u = remaining v + 1 := by
  cases h with
  | done hnone _ => rw [hnone] at hnext; cases hnext
  | next hsome hcount _ => rw [hsome] at hnext; cases hnext; exact hcount

theorem after_calls (h : Counts next? remaining u xs) (n : ℕ) :
    (calls next? n u).1 = (xs.take n).map some ++ List.replicate (n - xs.length) none ∧
      Counts next? remaining (calls next? n u).2 (xs.drop n) := by
  induction n generalizing u xs with
  | zero => simpa [calls] using h
  | succ n ih =>
    cases h with
    | done hnext hend =>
      obtain ⟨hgiven, hrest⟩ := ih (.done hnext hend)
      simp only [calls, hnext, Prod.map_fst, Prod.map_snd, hgiven]
      exact ⟨by simp [List.replicate_succ], by simpa using hrest⟩
    | next hnext _ hrest =>
      obtain ⟨hgiven, hrest⟩ := ih hrest
      simp only [calls, hnext, Prod.map_fst, Prod.map_snd, hgiven]
      exact ⟨by simp, by simpa using hrest⟩

theorem sized (h : Counts next? remaining u xs) : Sized next? remaining u xs where
  given n := (h.after_calls n).1
  left n := by rw [(h.after_calls n).2.remaining_eq, List.length_drop]
  counted n _ _ hnext := (h.after_calls n).2.counted hnext

end Counts

end Traversal

open Traversal Slot

variable {K V A : Type} [BEq K] [Hashable K] {m : OrderedMap K V} {order : EntryOrder}
  {es : List (K × V)}

theorem Slot.Chain.Holds.counts_cursor {c : Chain α} {l r : List (Slot.Id × α)} (h : c.Holds (l ++ r)) :
    Counts Cursor.next? Cursor.remaining ⟨c, firstId none r, r.length⟩ (r.map Prod.snd) := by
  induction r generalizing l with
  | nil => exact .done rfl rfl
  | cons p r ih =>
    refine .next (v := ⟨c, firstId none r, r.length⟩) ?_ rfl (ih (l := l ++ [p]) (by simpa using h))
    simp [Cursor.next?, h.node_split]

namespace OrderedMap

omit [BEq K] [Hashable K] in
theorem PartCursor.counts {u : Cursor K V} (h : Counts Slot.Cursor.next? Slot.Cursor.remaining u es)
    (part : K × V → A) : Counts next? remaining (PartCursor.mk u part) (es.map part) := by
  induction h with
  | done hnext hend => exact .done (by rw [next?, hnext]) hend
  | @next u v e es hnext hcount _ ih =>
    have hpart : next? (PartCursor.mk u part) = some (part e, ⟨v, part⟩) := by rw [next?, hnext]
    exact .next hpart hcount ih

omit [BEq K] [Hashable K] in
theorem Drain.counts {s : List (Slot.Id × K × V)} {d : Drain K V} (h : d.entries.Holds s) :
    Counts next? remaining d (s.map Prod.snd) := by
  induction s generalizing d with
  | nil =>
    refine .done ?_ h.size
    have hpop : d.entries.popFront = (none, d.entries.popFront.2) := Prod.ext h.popFront.1 rfl
    rw [next?, hpop]
  | cons p s ih =>
    obtain ⟨hfront, hrest⟩ := h.popFront
    have hpop : d.entries.popFront = (some p.2, d.entries.popFront.2) := Prod.ext hfront rfl
    refine .next (v := ⟨d.entries.popFront.2⟩) ?_ ?_ (ih hrest)
    · rw [next?, hpop]
    · rw [remaining, remaining, ← h.length, ← hrest.length]
      rfl

/-- Every way through the map leads along `es`. To collect the ids is to follow the links to their end,
and meets each node once. -/
structure Traversed (m : OrderedMap K V) (es : List (K × V)) : Prop where
  entries : Sized Slot.Cursor.next? Slot.Cursor.remaining m.cursor es
  keys : Sized PartCursor.next? PartCursor.remaining m.keyCursor (es.map Prod.fst)
  values : Sized PartCursor.next? PartCursor.remaining m.valueCursor (es.map Prod.snd)
  drained : Sized Drain.next? Drain.remaining m.drain es
  length : es.length = m.size
  follows : m.entries.Follows m.entries.first m.entries.ids
  once : m.entries.ids.Nodup
  ids_length : m.entries.ids.length = m.size
  places : m.entries.ids.map m.entries.get? = es.map some

theorem Shows.traversed (h : m.Shows order es) : m.Traversed es := by
  obtain ⟨rfl, s, hs, rfl⟩ := h
  have hcursor : Counts Slot.Cursor.next? Slot.Cursor.remaining m.cursor (s.map Prod.snd) := by
    have hstart := Slot.Chain.Holds.counts_cursor (l := []) hs.chain
    rwa [← hs.chain.first, hs.chain.length] at hstart
  have hlinked := hs.chain.linked
  refine ⟨hcursor.sized, (PartCursor.counts hcursor _).sized, (PartCursor.counts hcursor _).sized,
    (Drain.counts hs.chain).sized, ?_, hlinked.follows, hlinked.once, ?_, ?_⟩
  · rw [List.length_map, OrderedMap.size, hs.size]
  · rw [hlinked.length, OrderedMap.size, hs.size, hs.chain.length]
  · rw [hs.chain.ids, List.map_map, List.map_map, List.map_inj_left]
    intro p hp
    exact hs.chain.get?_eq_some.2 hp

variable [EquivBEq K] [LawfulHashable K]

/-- Whatever a run has led to, all ways through the map give the entries from the eldest to the newest,
or the parts of them that are asked for, and end behind the newest. -/
theorem traversals_agree (order : EntryOrder) (rs : List (Request K V)) :
    let m : OrderedMap K V := Run.after respond (empty order) rs
    m.Traversed m.toList := by
  intro m
  have hm : m.Shows order _ := (shows_empty order).after rs
  rw [hm.toList]
  exact hm.traversed

theorem traversals_agree_reuse : EquivBEq Item ∧ LawfulHashable Item ∧
    let m : OrderedMap Item ℕ := Run.after respond (empty .access)
      [.insert (.folded "a") 1, .insert (.text "b") 2, .insert (.text "c") 3, .remove (.folded "A"),
        .get (.text "b"), .insert (.text "d") 4]
    m.Traversed [(.text "c", 3), (.text "b", 2), (.text "d", 4)] ∧
    (calls PartCursor.next? 4 m.keyCursor).1 =
      [some (.text "c"), some (.text "b"), some (.text "d"), none] ∧
    (calls Drain.next? 2 m.drain).2.remaining = 1 := by
  refine ⟨inferInstance, inferInstance, ?_⟩
  intro m
  have hm : m.toList = [(.text "c", 3), (.text "b", 2), (.text "d", 4)] :=
    ((shows_empty .access).after _).toList
  have h : m.Traversed m.toList := traversals_agree .access _
  rw [hm] at h
  exact ⟨h, h.keys.given 4, h.drained.left 2⟩

end OrderedMap

end Holdall
