import Holdall.Proofs.BoundedMap.Tally
import Holdall.Proofs.OrderedMap.Within

namespace Holdall

open Association

variable {K V L L' : Type} [BEq K]

namespace BoundedList

open BoundedMap

structure Covers (small large : BoundedList K V) : Prop where
  within : Within small.entries large.entries
  maxSize_le : small.maxSize ≤ large.maxSize
  room_le : small.maxSize + large.entries.length ≤ large.maxSize + small.entries.length

namespace Covers

variable {small large : BoundedList K V}

theorem trim (h : small.Covers large) : small.trim.Covers large.trim := by
  have hroom := h.room_le
  have hmax := h.maxSize_le
  refine ⟨h.within.drop ?_, hmax, ?_⟩
  · omega
  · simp only [BoundedList.trim, dropEldest, List.length_drop]
    omega

theorem of_entries (h : small.Covers large) {s t : List (K × V)} (hst : Within s t)
    (hroom : small.maxSize + t.length ≤ large.maxSize + s.length) :
    Covers { small with entries := s } { large with entries := t } := ⟨hst, h.maxSize_le, hroom⟩

theorem tail (h : small.Covers large) : Covers { small with entries := small.entries.tail }
    { large with entries := large.entries.tail } := by
  refine h.of_entries h.within.tail ?_
  have hroom := h.room_le
  have hmax := h.maxSize_le
  rw [List.length_tail, List.length_tail]
  omega

variable [EquivBEq K]

theorem insert (h : small.Covers large) (hd : Distinct large.entries) (k : K) (v : V) :
    Covers { small with entries := insert .access small.entries k v }
      { large with entries := Association.insert .access large.entries k v } := by
  refine h.of_entries (h.within.insert hd k v) ?_
  have hroom := h.room_le
  have hkey := h.within.hasKey (k := k)
  rw [length_insert, length_insert]
  cases hs : hasKey small.entries k with
  | true =>
    rw [hkey hs, if_pos rfl, if_pos rfl]
    exact hroom
  | false =>
    rw [if_neg Bool.false_ne_true]
    split <;> omega

theorem without (h : small.Covers large) (k : K) :
    Covers { small with entries := without small.entries k }
      { large with entries := Association.without large.entries k } := by
  refine h.of_entries (h.within.without k) ?_
  have hroom := h.room_le
  have hgone := (h.within.filter_key k).length_le
  have hsmall := length_toEnd small.entries k
  have hlarge := length_toEnd large.entries k
  rw [toEnd, List.length_append] at hsmall hlarge
  omega

theorem respond (h : small.Covers large) (hd : Distinct large.entries) {r : Request K V}
    (hr : ∀ n, r ≠ .setMaxSize n) :
    (small.respond .access r).2.Covers (large.respond .access r).2 := by
  have hroom := h.room_le
  have hmax := h.maxSize_le
  cases r with
  | insert k v => exact (h.insert hd k v).trim
  | get k | touch k => exact h.of_entries (h.within.use k) (by simpa using hroom)
  | modify k f => exact h.of_entries ((h.within.use k).alter k f) (by simpa using hroom)
  | remove k => exact h.without k
  | popEldest => exact h.tail
  | clear => exact h.of_entries .nil (by simpa using hmax)
  | setMaxSize n => exact absurd rfl (hr n)
  | peek k | contains k | resetStats => exact h

end Covers

end BoundedList

namespace BoundedMap

variable [Hashable K] [Listener L K V] [Listener L' K V] [EquivBEq K] [LawfulHashable K]
  {small : BoundedMap K V L} {large : BoundedMap K V L'} {start : L} {start' : L'}

/-- What the smaller map shows lies within what the larger one shows. -/
structure Shadows (small : BoundedMap K V L) (large : BoundedMap K V L') (start : L) (start' : L')
    (b b' : BoundedList K V) : Prop where
  shows_small : small.Shows start .access b
  shows_large : large.Shows start' .access b'
  covers : b.Covers b'
  hits_le : small.tally.hits ≤ large.tally.hits

namespace Shadows

variable {b b' : BoundedList K V}

theorem get (h : small.Shadows large start start' b b') {k : K} {v : V}
    (hv : (small.get k).1 = some v) : (large.get k).1 = some v := by
  rw [(h.shows_small.get k).1] at hv
  rw [(h.shows_large.get k).1]
  exact h.covers.within.value? h.shows_large.entries.distinct hv

theorem hit_le (h : small.Shadows large start start' b b') (r : Request K V) :
    [deed (Run.call respond small r)].count (.read true) ≤
      [deed (Run.call respond large r)].count (.read true) := by
  have hsmall := (h.shows_small.respond r).1
  have hlarge := (h.shows_large.respond r).1
  cases r with
  | get k | modify k f =>
    have hkey := h.covers.within.hasKey (k := k)
    simp only [Run.call, deed, hsmall, hlarge, BoundedList.respond, isSome_value?]
    cases hk : hasKey b.entries k with
    | false => simp
    | true =>
      refine Nat.le_of_eq ?_
      rw [hkey hk]
  | setMaxSize n => cases n <;> simp [Run.call, deed, hsmall, BoundedList.respond]
  | _ => simp [Run.call, deed, hsmall, BoundedList.respond]

theorem respond (h : small.Shadows large start start' b b') {r : Request K V}
    (hr : ∀ n, r ≠ .setMaxSize n) : (small.respond r).2.Shadows (large.respond r).2 start start'
      (b.respond .access r).2 (b'.respond .access r).2 := by
  refine ⟨(h.shows_small.respond r).2, (h.shows_large.respond r).2,
    h.covers.respond h.shows_large.entries.distinct hr, ?_⟩
  by_cases hreset : r = .resetStats
  · subst hreset
    exact Nat.le_refl 0
  · rw [h.shows_small.tally_respond hreset, h.shows_large.tally_respond hreset]
    simp only [Tally.evict, Tally.hits_record]
    exact Nat.add_le_add h.hits_le (h.hit_le r)

end Shadows

/-- However long both are asked the same, raising the bound of a map loses it no entry and no hit. -/
theorem within_after {maxSize maxSize' : ℕ} (hmax : maxSize ≤ maxSize') (start : L) (start' : L')
    (rs : List (Request K V)) (hrs : ∀ n, Request.setMaxSize n ∉ rs) :
    let small : BoundedMap K V L := Run.after respond (create maxSize start) rs
    let large : BoundedMap K V L' := Run.after respond (create maxSize' start') rs
    Within small.toList large.toList ∧
      (∀ k v, (small.get k).1 = some v → (large.get k).1 = some v) ∧
      small.tally.hits ≤ large.tally.hits := by
  intro small large
  have hcovers : (⟨[], maxSize, []⟩ : BoundedList K V).Covers ⟨[], maxSize', []⟩ := by
    refine ⟨.nil, hmax, ?_⟩
    simpa using hmax
  have hshadows : ∃ b b', small.Shadows large start start' b b' := by
    refine Run.after_simulate (P := fun m n ↦ ∃ b b', Shadows m n start start' b b') ?_ ?_
    · rintro m n r hr ⟨b, b', h⟩
      have hbound : ∀ n, r ≠ .setMaxSize n := by
        rintro n rfl
        exact hrs n hr
      exact ⟨_, _, h.respond hbound⟩
    · exact ⟨_, _, shows_create maxSize start .access, shows_create maxSize' start' .access,
        hcovers, Nat.le_refl 0⟩
  obtain ⟨b, b', h⟩ := hshadows
  refine ⟨?_, fun k v ↦ h.get, h.hits_le⟩
  rw [h.shows_small.toList, h.shows_large.toList]
  exact h.covers.within

theorem within_after_folded : EquivBEq Item ∧ LawfulHashable Item ∧ 2 ≤ 3 ∧
    let rs : List (Request Item ℕ) := [.insert (.folded "a") 1, .insert (.text "b") 2,
      .insert (.text "c") 3, .get (.folded "A"), .insert (.folded "A") 4, .modify (.text "b") (· + 1)]
    (∀ n, Request.setMaxSize n ∉ rs) ∧
    let small : BoundedMap Item ℕ Silent := Run.after respond (create 2 ⟨⟩) rs
    let large : BoundedMap Item ℕ EvictionCounter := Run.after respond (create 3 ⟨0⟩) rs
    Within small.toList large.toList ∧
      (∀ k v, (small.get k).1 = some v → (large.get k).1 = some v) ∧
      small.tally.hits ≤ large.tally.hits :=
  ⟨inferInstance, inferInstance, by decide, by simp,
    within_after (by decide) Silent.mk (EvictionCounter.mk 0) _ (by simp)⟩

end BoundedMap

end Holdall
