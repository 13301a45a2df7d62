import Holdall.Sequence.Chunks
import Mathlib.Algebra.Order.Floor.Div

namespace Holdall.Sequence

variable {α : Type} {itemBytes size : ℕ} {started xs rest c : List α} {full : List (List α)}

/-- Full chunks of a sequence, and what is left over behind them. -/
structure Cut (size : ℕ) (xs : List α) (full : List (List α)) (rest : List α) : Prop where
  filled c : c ∈ full → c.length = size
  room : rest.length < size
  flatten : full.flatten ++ rest = xs

theorem newChunk_of_fits (hfits : itemBytes * size ≤ maxBytes) :
    (newChunk itemBytes size : Except ChunkFailure (List α)) = .ok [] := if_pos hfits

theorem chunksAfter_of_full (hfits : itemBytes * size ≤ maxBytes) {x : α}
    (hfull : (started ++ [x]).length = size) (xs : List α) :
    chunksAfter itemBytes size started (x :: xs) =
      (chunksAfter itemBytes size [] xs).map ((started ++ [x]) :: ·) := by
  rw [chunksAfter, if_pos hfull, newChunk_of_fits hfits]
  change (do return (started ++ [x]) :: (← chunksAfter itemBytes size [] xs)) = _
  cases chunksAfter itemBytes size [] xs <;> rfl

/-- The chunk that has been started always has room for another item. -/
theorem exists_cut (hfits : itemBytes * size ≤ maxBytes) (hroom : started.length < size)
    (xs : List α) : ∃ full rest, Cut size (started ++ xs) full rest ∧
      chunksAfter itemBytes size started xs = .ok (full ++ lastChunk rest) := by
  induction xs generalizing started with
  | nil => exact ⟨[], started, ⟨nofun, hroom, (List.append_nil started).symm⟩, rfl⟩
  | cons x xs ih =>
    have hgrown : (started ++ [x]).length = started.length + 1 := List.length_append
    by_cases hfull : (started ++ [x]).length = size
    · have hempty : ([] : List α).length < size := Nat.zero_lt_of_lt hroom
      obtain ⟨full, rest, hcut, heq⟩ := ih hempty
      refine ⟨(started ++ [x]) :: full, rest, ⟨?_, hcut.room, ?_⟩, ?_⟩
      · exact List.forall_mem_cons.2 ⟨hfull, hcut.filled⟩
      · rw [List.flatten_cons, List.append_assoc, hcut.flatten, List.nil_append, ← List.append_cons]
      · rw [chunksAfter_of_full hfits hfull, heq]
        rfl
    · have hmore : (started ++ [x]).length < size := by omega
      obtain ⟨full, rest, hcut, heq⟩ := ih hmore
      rw [← List.append_cons] at hcut
      refine ⟨full, rest, hcut, ?_⟩
      rw [chunksAfter, if_neg hfull]
      exact heq

namespace Cut

theorem length (h : Cut size xs full rest) : xs.length = size * full.length + rest.length := by
  have hfull : full.map List.length = List.replicate full.length size := by
    rw [List.eq_replicate_iff, List.length_map, List.forall_mem_map]
    exact ⟨rfl, h.filled⟩
  rw [← h.flatten, List.length_append, List.length_flatten, hfull, List.sum_replicate_nat,
    Nat.mul_comm]

theorem rest_eq_nil (h : Cut size xs full rest) (hdvd : size ∣ xs.length) : rest = [] := by
  rw [h.length, Nat.dvd_add_right (Nat.dvd_mul_right size full.length)] at hdvd
  exact List.length_eq_zero_iff.1 (Nat.eq_zero_of_dvd_of_lt hdvd h.room)

theorem flatten_chunks (h : Cut size xs full rest) : (full ++ lastChunk rest).flatten = xs := by
  rw [List.flatten_append, lastChunk, ← h.flatten]
  cases rest <;> simp

theorem bounds (h : Cut size xs full rest) (hc : c ∈ full ++ lastChunk rest) :
    1 ≤ c.length ∧ c.length ≤ size := by
  have hroom := h.room
  rw [List.mem_append, lastChunk] at hc
  rcases hc with hc | hc
  · have hfilled := h.filled c hc
    omega
  · cases rest with
    | nil => exact absurd hc List.not_mem_nil
    | cons x rest =>
      rw [List.mem_singleton.1 hc]
      exact ⟨Nat.succ_pos _, hroom.le⟩

theorem length_of_mem_dropLast (h : Cut size xs full rest)
    (hc : c ∈ (full ++ lastChunk rest).dropLast) : c.length = size := by
  rw [lastChunk] at hc
  cases rest with
  | nil =>
    rw [List.isEmpty_nil, if_pos rfl, List.append_nil] at hc
    exact h.filled c (List.mem_of_mem_dropLast hc)
  | cons x rest =>
    rw [List.isEmpty_cons, if_neg Bool.false_ne_true, List.dropLast_concat] at hc
    exact h.filled c hc

theorem length_chunks (h : Cut size xs full rest) :
    (full ++ lastChunk rest).length = xs.length ⌈/⌉ size := by
  have hroom := h.room
  have hpad : size * full.length + rest.length + size - 1 =
      size * full.length + (rest.length + size - 1) := by omega
  rw [Nat.ceilDiv_eq_add_pred_div, h.length, hpad, Nat.mul_add_div (Nat.zero_lt_of_lt hroom),
    List.length_append, lastChunk]
  cases rest with
  | nil =>
    rw [List.length_nil, Nat.zero_add, Nat.div_eq_of_lt (by omega)]
    rfl
  | cons x rest =>
    have hone : (x :: rest).length + size - 1 = rest.length + size := by
      rw [List.length_cons]
      omega
    rw [hone, Nat.add_div_right _ (Nat.zero_lt_of_lt hroom), Nat.div_eq_of_lt (Nat.lt_of_succ_lt hroom)]
    rfl

end Cut

theorem chunks_of_room (hsize : size ≠ 0) (hfits : itemBytes * size ≤ maxBytes) (xs : List α) :
    ∃ full rest, Cut size xs full rest ∧ chunks itemBytes size xs = .ok (full ++ lastChunk rest) := by
  have hroom : ([] : List α).length < size := Nat.pos_of_ne_zero hsize
  obtain ⟨full, rest, hcut, heq⟩ := exists_cut hfits hroom xs
  refine ⟨full, rest, hcut, ?_⟩
  rw [chunks, if_neg hsize, newChunk_of_fits hfits]
  exact heq

theorem chunks_of_no_room (hsize : size ≠ 0) (hmany : maxBytes < itemBytes * size) (xs : List α) :
    chunks itemBytes size xs = .error .capacityOverflow := by
  rw [chunks, if_neg hsize, newChunk, if_neg (Nat.not_le.2 hmany)]
  rfl

theorem chunks_cases (itemBytes size : ℕ) (xs : List α) :
    (size = 0 ∧ chunks itemBytes size xs = .error (.refused .emptyChunks)) ∨
    (size ≠ 0 ∧ maxBytes < itemBytes * size ∧
      chunks itemBytes size xs = .error .capacityOverflow) ∨
    (size ≠ 0 ∧ itemBytes * size ≤ maxBytes ∧
      ∃ full rest, Cut size xs full rest ∧
        chunks itemBytes size xs = .ok (full ++ lastChunk rest)) := by
  by_cases hsize : size = 0
  · exact .inl ⟨hsize, if_pos hsize⟩
  · rcases Nat.lt_or_ge maxBytes (itemBytes * size) with hmany | hfits
    · exact .inr (.inl ⟨hsize, hmany, chunks_of_no_room hsize hmany xs⟩)
    · exact .inr (.inr ⟨hsize, hfits, chunks_of_room hsize hfits xs⟩)

theorem chunks_eq_refused_iff {e : ArgumentError} :
    chunks itemBytes size xs = .error (.refused e) ↔ size = 0 ∧ e = .emptyChunks := by
  obtain ⟨hzero, heq⟩ | ⟨hsize, -, heq⟩ | ⟨hsize, -, full, rest, -, heq⟩ :=
    chunks_cases itemBytes size xs
  · rw [heq]
    simp [hzero, eq_comm]
  · simp [heq, hsize]
  · simp [heq, hsize]

theorem chunks_eq_capacityOverflow_iff :
    chunks itemBytes size xs = .error .capacityOverflow ↔
      size ≠ 0 ∧ maxBytes < itemBytes * size := by
  obtain ⟨hzero, heq⟩ | ⟨hsize, hmany, heq⟩ | ⟨hsize, hfits, full, rest, -, heq⟩ :=
    chunks_cases itemBytes size xs
  · rw [heq]
    simp [hzero]
  · simp [heq, hsize, hmany]
  · simp [heq, Nat.not_lt.2 hfits]

/-- Chunks without room for an item are refused, and chunks for which more room is needed than can be
asked for overflow. Chunks of any other size, one after the other, are the sequence. All are full, but
for the last one, which has an item at least; and there are as many of them as it takes. -/
theorem chunks_cut (itemBytes size : ℕ) (xs : List α) :
    (∀ e, chunks itemBytes size xs = .error (.refused e) ↔ size = 0 ∧ e = .emptyChunks) ∧
    (chunks itemBytes size xs = .error .capacityOverflow ↔
      size ≠ 0 ∧ maxBytes < itemBytes * size) ∧
    (size ≠ 0 → itemBytes * size ≤ maxBytes →
      ∃ cs, chunks itemBytes size xs = .ok cs ∧ cs.flatten = xs ∧
      (∀ c ∈ cs.dropLast, c.length = size) ∧ (∀ c ∈ cs.getLast?, 1 ≤ c.length ∧ c.length ≤ size) ∧
      [] ∉ cs ∧ cs.length = xs.length ⌈/⌉ size ∧ (xs = [] → cs = []) ∧
      (size ∣ xs.length → cs.length * size = xs.length ∧ ∀ c ∈ cs, c.length = size)) := by
  refine ⟨fun _ ↦ chunks_eq_refused_iff, chunks_eq_capacityOverflow_iff, ?_⟩
  intro hsize hfits
  obtain ⟨full, rest, hcut, heq⟩ := chunks_of_room hsize hfits xs
  refine ⟨full ++ lastChunk rest, heq, hcut.flatten_chunks, ?_, ?_, ?_, hcut.length_chunks, ?_, ?_⟩
  · exact fun _ ↦ hcut.length_of_mem_dropLast
  · exact fun _ hc ↦ hcut.bounds (List.mem_of_mem_getLast? hc)
  · exact fun hnil ↦ Nat.not_succ_le_zero 0 (hcut.bounds hnil).1
  · rintro rfl
    rw [chunks, if_neg hsize, newChunk_of_fits hfits] at heq
    exact (Except.ok.inj heq).symm
  · intro hdvd
    obtain rfl := hcut.rest_eq_nil hdvd
    rw [lastChunk, List.isEmpty_nil, if_pos rfl, List.append_nil, hcut.length, Nat.mul_comm]
    exact ⟨rfl, hcut.filled⟩

theorem chunks_cut_five : 2 ≠ 0 ∧ 8 * 2 ≤ maxBytes ∧ 2 ∣ [1, 2, 3, 4].length ∧
    chunks 8 0 [1, 2, 3] = .error (.refused .emptyChunks) ∧
    (∃ cs, chunks 8 2 [1, 2, 3, 4, 5] = .ok cs ∧ cs = [[1, 2], [3, 4], [5]] ∧
      cs.flatten = [1, 2, 3, 4, 5] ∧ (∀ c ∈ cs.dropLast, c.length = 2) ∧ cs.length = 3) ∧
    ∃ cs, chunks 8 2 [1, 2, 3, 4] = .ok cs ∧ cs = [[1, 2], [3, 4]] ∧ cs.length * 2 = 4 ∧
      ∀ c ∈ cs, c.length = 2 := by
  have hpos : 2 ≠ 0 := by decide
  have hfits : 8 * 2 ≤ maxBytes := by decide
  have heven : 2 ∣ [1, 2, 3, 4].length := ⟨2, rfl⟩
  obtain ⟨five, hfive, hflatten, hfull, -, -, hcount, -⟩ :=
    (chunks_cut 8 2 [1, 2, 3, 4, 5]).2.2 hpos hfits
  obtain ⟨four, hfour, -, -, -, -, -, -, hall⟩ := (chunks_cut 8 2 [1, 2, 3, 4]).2.2 hpos hfits
  refine ⟨hpos, hfits, heven, ((chunks_cut 8 0 [1, 2, 3]).1 _).2 ⟨rfl, rfl⟩, ?_, ?_⟩
  · exact ⟨five, hfive, (Except.ok.inj hfive).symm, hflatten, hfull, hcount⟩
  · exact ⟨four, hfour, (Except.ok.inj hfour).symm, hall heven⟩

/-- Room for so large a chunk cannot be asked for, so nothing is cut, not even an empty sequence. -/
theorem chunks_without_room :
    let size : ℕ := 18446744073709551615
    size ≠ 0 ∧ chunks 8 size ([1, 2, 3] : List UInt64) = .error .capacityOverflow ∧
    chunks 8 size ([] : List UInt64) = .error .capacityOverflow ∧
    ¬ ∃ cs, chunks 8 size ([1, 2, 3] : List UInt64) = .ok cs ∧ cs.flatten = [1, 2, 3] := by
  intro size
  have hsize : size ≠ 0 := by decide
  have hmany : maxBytes < 8 * size := by decide
  have hthree := chunks_of_no_room hsize hmany ([1, 2, 3] : List UInt64)
  refine ⟨hsize, hthree, chunks_of_no_room hsize hmany [], ?_⟩
  rintro ⟨cs, hcs, -⟩
  rw [hthree] at hcs
  exact nomatch hcs

end Holdall.Sequence
