import Holdall.GuardedMap
import Holdall.Item.Basic
import Holdall.Proofs.BoundedMap.Tally

namespace Holdall

open Association Run BoundedMap

variable {σ K V L : Type} [BEq K] [Hashable K]

namespace BoundedMap

variable [Listener L K V] {m : BoundedMap K V L} {start : L} {order : EntryOrder}
  {b : BoundedList K V} {k : K}

/-- The map has a value under the key: nothing is made, and a hit is counted. -/
structure Finds (m : BoundedMap K V L) (k : K) (v : V) (m' : BoundedMap K V L) : Prop where
  unmade : ∀ {M : Type → Type} [Monad M] (make : M V),
    (⟨m⟩ : GuardedMap K V L).getOrInsertM k make = pure (v, ⟨m'⟩)
  tally : m'.tally = { m.tally with hits := m.tally.hits + 1 }
  kept : m'.peek? k = some v

/-- The map has no value under the key: one is made, and a miss and an insertion are counted. A map
that is full drops an entry for it, and one without any room the new entry itself. -/
structure Fills (m : BoundedMap K V L) (k : K) (m' : V → BoundedMap K V L) : Prop where
  made : ∀ {M : Type → Type} [Monad M] (make : M V),
    (⟨m⟩ : GuardedMap K V L).getOrInsertM k make = do
      let v ← make
      return (v, ⟨m' v⟩)
  tally : ∀ v, (m' v).tally = { m.tally with
    misses := m.tally.misses + 1
    inserts := m.tally.inserts + 1
    evictions := m.tally.evictions + (m.size + 1 - m.maxSize) }
  kept : 0 < m.maxSize → ∀ v, (m' v).peek? k = some v

omit [Hashable K] in
theorem entries_trim_insert (order : EntryOrder) (hk : hasKey b.entries k = false)
    (hroom : 0 < b.maxSize) (v : V) :
    ({ b with entries := Association.insert order b.entries k v }.trim).entries =
      b.entries.drop (b.entries.length + 1 - b.maxSize) ++ [(k, v)] := by
  have hle : b.entries.length + 1 - b.maxSize ≤ b.entries.length := by omega
  simp only [BoundedList.trim, BoundedList.dropEldest]
  rw [Association.insert, hk, if_neg Bool.false_ne_true, List.length_append, List.length_singleton,
    List.drop_append_of_le_length hle]

namespace Shows

theorem countMiss (h : m.Shows start order b) : m.countMiss.Shows start order b :=
  h.of_eq h.entries rfl rfl

variable [EquivBEq K] [LawfulHashable K]

theorem finds (h : m.Shows start order b) {v : V} (hv : value? b.entries k = some v) :
    m.Finds k v (m.get k).2 := by
  obtain ⟨hvalue, hrest⟩ := h.get k
  have hget : m.get k = (some v, (m.get k).2) := Prod.ext (hvalue.trans hv) rfl
  have hcontains : m.contains k = true := by rw [h.contains, ← isSome_value?, hv, Option.isSome_some]
  constructor
  · intro M _ make
    rw [GuardedMap.getOrInsertM, hget]
  · rw [BoundedMap.get, if_pos hcontains]
    rfl
  · have hkept := h.entries.distinct.value?_eq_of_perm (use_perm order b.entries k).symm k
    exact (hrest.entries.peek? k).trans (hkept.symm.trans hv)

theorem get_of_absent (h : m.Shows start order b) (hk : hasKey b.entries k = false) :
    m.get k = (none, m.countMiss) := by
  rw [BoundedMap.get, h.contains, hk, if_neg Bool.false_ne_true]

theorem fills (h : m.Shows start order b) (hk : hasKey b.entries k = false) :
    m.Fills k fun v ↦ (m.countMiss.insert k v).2 := by
  constructor
  · intro M _ make
    rw [GuardedMap.getOrInsertM, h.get_of_absent hk]
  · intro v
    have hlen : (Association.insert order b.entries k v).length = b.entries.length + 1 := by
      rw [length_insert, hk, if_neg Bool.false_ne_true]
    rw [h.countMiss.tally_insert, (h.countMiss.insert k v).1, value?_of_absent hk,
      BoundedList.overflow_insert, List.length_take, hlen, Nat.min_eq_left (Nat.sub_le _ _), h.size,
      h.maxSize]
    rfl
  · intro hroom v
    rw [h.maxSize] at hroom
    have hpeek := (h.countMiss.insert k v).2.entries.peek? k
    have hd := (h.countMiss.insert k v).2.entries.distinct
    rw [entries_trim_insert order hk hroom] at hpeek hd
    rwa [hd.value?_split BEq.rfl] at hpeek

end Shows

end BoundedMap

namespace GuardedMap

/-- What makes a value may read and change a world outside the map. -/
inductive Request (σ K V : Type)
  | getOrInsert (k : K) (make : StateM σ V)
  | get (k : K)
  | peek (k : K)
  | contains (k : K)

def Request.key : Request σ K V → K
  | .getOrInsert k _ | .get k | .peek k | .contains k => k

inductive Reply (V : Type)
  | given (v : V)
  | found (v : Option V)
  | flag (b : Bool)

/-- The world outside the map, and the values made so far, each under the key it was made for. -/
structure Outside (σ K V : Type) where
  world : σ
  made : List (K × V) := []

def noted (k : K) (make : StateM σ V) : StateM (Outside σ K V) V :=
  modifyGet fun outside ↦
    let (v, world) := make.run outside.world
    (v, ⟨world, outside.made ++ [(k, v)]⟩)

def respond [Listener L K V] (s : GuardedMap K V L × Outside σ K V) :
    Request σ K V → Reply V × (GuardedMap K V L × Outside σ K V)
  | .getOrInsert k make =>
    let ((v, g), outside) := (s.1.getOrInsertM k (noted k make)).run s.2
    (.given v, g, outside)
  | .get k => let (v, g) := s.1.get k; (.found v, g, s.2)
  | .peek k => (.found (s.1.peek? k), s)
  | .contains k => (.flag (s.1.contains k), s)

/-- A call that may make a value gives the one that is made for its key. -/
def Gives (made : List (K × V))
    (c : Call (GuardedMap K V L × Outside σ K V) (Request σ K V) (Reply V)) : Prop :=
  ∀ k make, c.request = .getOrInsert k make → ∃ v, value? made k = some v ∧ c.answer = .given v

theorem Gives.append {made : List (K × V)}
    {c : Call (GuardedMap K V L × Outside σ K V) (Request σ K V) (Reply V)} (h : Gives made c)
    (later : List (K × V)) : Gives (made ++ later) c := by
  intro k make hk
  obtain ⟨v, hv, hanswer⟩ := h k make hk
  exact ⟨v, value?_append_left hv later, hanswer⟩

variable [Listener L K V] {start : L} {order : EntryOrder} {ks : List K}
  {s : GuardedMap K V L × Outside σ K V}

/-- The map holds what was made, and has room for all of `ks`, among which the keys are. -/
structure Remembers (start : L) (order : EntryOrder) (ks : List K)
    (s : GuardedMap K V L × Outside σ K V) : Prop where
  shown : ∃ b, s.1.map.Shows start order b ∧ b.entries.Perm s.2.made ∧ ks.length ≤ b.maxSize
  covered : ∀ e ∈ s.2.made, ∃ k ∈ ks, (e.1 == k) = true

section

variable {k : K}

theorem respond_of_finds {v : V} {m' : BoundedMap K V L} (h : s.1.map.Finds k v m')
    (make : StateM σ V) : respond s (.getOrInsert k make) = (.given v, ⟨m'⟩, s.2) := by
  rw [respond, h.unmade]
  rfl

theorem respond_of_fills {m' : V → BoundedMap K V L} (h : s.1.map.Fills k m') (make : StateM σ V) :
    respond s (.getOrInsert k make) =
      let (v, world) := make.run s.2.world
      (.given v, ⟨m' v⟩, ⟨world, s.2.made ++ [(k, v)]⟩) := by
  rw [respond, h.made]
  rfl

end

namespace Remembers

variable [EquivBEq K]

theorem length_lt (h : Remembers start order ks s) {k : K} (hks : ∃ k' ∈ ks, (k == k') = true)
    (v : V) (hd : Distinct (s.2.made ++ [(k, v)])) : s.2.made.length < ks.length := by
  have hcovered : ∀ e ∈ s.2.made ++ [(k, v)], ∃ k' ∈ ks, (e.1 == k') = true := by
    rw [List.forall_mem_append, List.forall_mem_singleton]
    exact ⟨h.covered, hks⟩
  have hlen := hd.length_le_of_covered hcovered
  rwa [List.length_append, List.length_singleton] at hlen

theorem distinct (h : Remembers start order ks s) : Distinct s.2.made := by
  obtain ⟨b, hb, hmade, -⟩ := h.shown
  exact hb.entries.distinct.perm hmade

variable [LawfulHashable K]

theorem getOrInsert (h : Remembers start order ks s) {k : K} (hk : ∃ k' ∈ ks, (k == k') = true)
    (make : StateM σ V) :
    ∃ v more, value? (s.2.made ++ more) k = some v ∧ (∀ e ∈ more, e.1 = k) ∧
      (respond s (.getOrInsert k make)).1 = .given v ∧
      (respond s (.getOrInsert k make)).2.2.made = s.2.made ++ more ∧
      Remembers start order ks (respond s (.getOrInsert k make)).2 := by
  obtain ⟨b, hb, hmade, hroom⟩ := h.shown
  have hd := hb.entries.distinct
  cases hv : value? b.entries k with
  | some v =>
    obtain ⟨-, hrest⟩ := hb.get k
    rw [respond_of_finds (hb.finds hv)]
    refine ⟨v, [], ?_, nofun, rfl, (List.append_nil _).symm, ?_, h.covered⟩
    · rw [List.append_nil, ← hd.value?_eq_of_perm hmade, hv]
    · exact ⟨_, hrest, (use_perm order b.entries k).trans hmade, hroom⟩
  | none =>
    have habsent : hasKey b.entries k = false := by rw [← isSome_value?, hv, Option.isSome_none]
    rw [respond_of_fills (hb.fills habsent)]
    obtain ⟨v, world⟩ := make.run s.2.world
    have hpush : Distinct (b.entries ++ [(k, v)]) := hd.push habsent
    have hmade' := hmade.append_right [(k, v)]
    have hlen := h.length_lt hk v (hpush.perm hmade')
    have hfits : b.entries.length + 1 - b.maxSize = 0 := by
      rw [← hmade.length_eq] at hlen
      omega
    have hentries := entries_trim_insert order habsent (by omega) v
    rw [hfits, List.drop_zero] at hentries
    refine ⟨v, [(k, v)], ?_, ?_, rfl, rfl, ⟨_, (hb.countMiss.insert k v).2, ?_, hroom⟩, ?_⟩
    · rw [← hpush.value?_eq_of_perm hmade', hpush.value?_split BEq.rfl]
    · rw [List.forall_mem_singleton]
    · rw [hentries]
      exact hmade'
    · rw [List.forall_mem_append, List.forall_mem_singleton]
      exact ⟨h.covered, hk⟩

theorem respond (h : Remembers start order ks s) {r : Request σ K V}
    (hr : ∃ k ∈ ks, (r.key == k) = true) :
    ∃ more, (GuardedMap.respond s r).2.2.made = s.2.made ++ more ∧
      (∀ e ∈ more, ∃ make, r = .getOrInsert e.1 make) ∧ Gives (s.2.made ++ more) (call respond s r) ∧
      Remembers start order ks (GuardedMap.respond s r).2 := by
  cases r with
  | getOrInsert k make =>
    obtain ⟨v, more, hv, hmore, hanswer, hmade, hnext⟩ := h.getOrInsert (k := k) hr make
    refine ⟨more, hmade, ?_, ?_, hnext⟩
    · intro e he
      exact ⟨make, by rw [hmore e he]⟩
    · intro k' make' hk'
      cases hk'
      exact ⟨v, hv, hanswer⟩
  | get k =>
    obtain ⟨b, hb, hmade, hroom⟩ := h.shown
    obtain ⟨-, hrest⟩ := hb.get k
    refine ⟨[], (List.append_nil _).symm, nofun, nofun, ?_, h.covered⟩
    exact ⟨_, hrest, (use_perm order b.entries k).trans hmade, hroom⟩
  | peek k => exact ⟨[], (List.append_nil _).symm, nofun, nofun, h⟩
  | contains k => exact ⟨[], (List.append_nil _).symm, nofun, nofun, h⟩

theorem after (h : Remembers start order ks s) {rs : List (Request σ K V)}
    (hrs : ∀ r ∈ rs, ∃ k ∈ ks, (r.key == k) = true) :
    ∃ more, (Run.after GuardedMap.respond s rs).2.made = s.2.made ++ more ∧
      (∀ e ∈ more, ∃ make, .getOrInsert e.1 make ∈ rs) ∧
      (∀ c ∈ calls GuardedMap.respond s rs, Gives (s.2.made ++ more) c) ∧
      Remembers start order ks (Run.after GuardedMap.respond s rs) := by
  induction rs generalizing s with
  | nil => exact ⟨[], (List.append_nil _).symm, nofun, nofun, h⟩
  | cons r rs ih =>
    rw [List.forall_mem_cons] at hrs
    obtain ⟨first, hfirst, hasked, hgives, hnext⟩ := h.respond hrs.1
    obtain ⟨later, hlater, hasked', hgives', hlast⟩ := ih hnext hrs.2
    rw [hfirst, List.append_assoc] at hlater
    refine ⟨first ++ later, hlater, ?_, ?_, hlast⟩
    · intro e he
      rcases List.mem_append.1 he with he | he
      · obtain ⟨make, hmake⟩ := hasked e he
        exact ⟨make, List.mem_cons.2 (.inl hmake.symm)⟩
      · obtain ⟨make, hmake⟩ := hasked' e he
        exact ⟨make, List.mem_cons_of_mem r hmake⟩
    · rw [hfirst, List.append_assoc] at hgives'
      rw [← List.append_assoc]
      rw [calls, List.forall_mem_cons]
      refine ⟨hgives.append later, ?_⟩
      rwa [List.append_assoc]

end Remembers

variable [EquivBEq K] [LawfulHashable K]

/-- Each call on a map tells whether it makes a value by whether the key is absent, and is counted so.
From a map without entries, and with room for the keys in use, one value is made for each key that
comes up in a call that may make one, and each such call gives it. -/
theorem makes_once (maxSize : ℕ) (start : L) (order : EntryOrder)
    (past : List (BoundedMap.Request K V)) :
    let m := Run.after BoundedMap.respond (.create maxSize start order) past
    (∀ k, (m.contains k = true → ∃ v m', m.Finds k v m') ∧
      (m.contains k = false → ∃ m', m.Fills k m')) ∧
    (m.size = 0 → ∀ (world : σ) (rs : List (Request σ K V)) (ks : List K),
      ks.length ≤ m.maxSize → (∀ r ∈ rs, ∃ k ∈ ks, (r.key == k) = true) →
      let empty : GuardedMap K V L × Outside σ K V := (⟨m⟩, ⟨world, []⟩)
      let made := (after respond empty rs).2.made
      Distinct made ∧
        (∀ k, hasKey made k = true ↔ ∃ k' make, .getOrInsert k' make ∈ rs ∧ (k' == k) = true) ∧
        ∀ c ∈ calls respond empty rs, Gives made c) := by
  intro m
  have hm := (BoundedMap.shows_create maxSize start order).after past
  refine ⟨?_, ?_⟩
  · intro k
    rw [hm.contains]
    constructor
    · intro hk
      rw [← isSome_value?] at hk
      obtain ⟨v, hv⟩ := Option.isSome_iff_exists.1 hk
      exact ⟨v, _, hm.finds hv⟩
    · intro hk
      exact ⟨_, hm.fills hk⟩
  · intro hempty world rs ks hroom hrs empty made
    rw [hm.size, List.length_eq_zero_iff] at hempty
    rw [hm.maxSize] at hroom
    have hstart : Remembers start order ks empty :=
      ⟨⟨_, hm, List.Perm.of_eq hempty, hroom⟩, nofun⟩
    obtain ⟨more, hmade, hasked, hgives, hend⟩ := hstart.after hrs
    rw [← hmade] at hgives
    refine ⟨hend.distinct, ?_, hgives⟩
    intro k
    constructor
    · intro hk
      obtain ⟨e, he, hek⟩ := exists_mem_of_hasKey hk
      rw [show made = more from hmade] at he
      obtain ⟨make, hmake⟩ := hasked e he
      exact ⟨e.1, make, hmake, hek⟩
    · intro hk
      obtain ⟨k', make, hr, hkk'⟩ := hk
      rw [← requests_calls GuardedMap.respond empty rs] at hr
      obtain ⟨c, hc, hrequest⟩ := List.mem_map.1 hr
      obtain ⟨v, hv, -⟩ := hgives c hc k' make hrequest
      rw [← hasKey_congr hkk', ← isSome_value?, hv, Option.isSome_some]

theorem makes_once_folded : EquivBEq Item ∧ LawfulHashable Item ∧
    let after := Run.after BoundedMap.respond (.create 2 ⟨[]⟩ : BoundedMap Item ℕ (Recorder Item ℕ))
    let number : StateM ℕ ℕ := modifyGet fun n ↦ (n, n + 1)
    let rs : List (Request ℕ Item ℕ) := [.getOrInsert (.folded "a") number,
      .getOrInsert (.text "b") number, .peek (.text "b"), .getOrInsert (.folded "A") number]
    (∃ v m', (after [.insert (.folded "a") 1]).Finds (.folded "A") v m') ∧
      (∃ m', (after [.insert (.folded "a") 1]).Fills (.text "b") m') ∧
      let empty : GuardedMap Item ℕ (Recorder Item ℕ) × Outside ℕ Item ℕ := (⟨after []⟩, ⟨7, []⟩)
      let made := (Run.after respond empty rs).2.made
      Distinct made ∧
        (∀ k, hasKey made k = true ↔ ∃ k' make, .getOrInsert k' make ∈ rs ∧ (k' == k) = true) ∧
        ∀ c ∈ calls respond empty rs, Gives made c := by
  have honce := @makes_once ℕ Item ℕ (Recorder Item ℕ) _ _ _ _ _ 2 ⟨[]⟩ .access
  have hstored := (shows_create (L := Recorder Item ℕ) (K := Item) (V := ℕ) 2 ⟨[]⟩ .access).after
    [.insert (.folded "a") 1]
  refine ⟨inferInstance, inferInstance, ((honce _).1 _).1 ?_, ((honce _).1 _).2 ?_,
    (honce []).2 rfl 7 _ [.folded "a", .text "b"] (by decide) (by decide)⟩
  · rw [hstored.contains]
    decide +kernel
  · rw [hstored.contains]
    decide +kernel

end GuardedMap

end Holdall
