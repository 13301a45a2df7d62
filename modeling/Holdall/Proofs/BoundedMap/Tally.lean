import Holdall.Proofs.BoundedMap.Overflow
import Mathlib.Algebra.GroupWithZero.Nat

namespace Holdall

/-- What a call does to the entries: a read and a removal may find their key, a store may replace a
value, and a clearing removes so many entries. -/
inductive Deed
  | read (found : Bool)
  | store (replaced : Bool)
  | take (found : Bool)
  | clear (size : ℕ)
  | other
  deriving DecidableEq, Repr

namespace Deed

def isRead : Deed → Bool
  | .read _ => true
  | _ => false

def isStore : Deed → Bool
  | .store _ => true
  | _ => false

def cleared : Deed → ℕ
  | .clear size => size
  | _ => 0

theorem countP_isRead (d : Deed) :
    [d].countP isRead = [d].count (.read true) + [d].count (.read false) := by
  rcases d with (_ | _) | _ | _ | _ | _ <;> rfl

theorem countP_isStore (d : Deed) :
    [d].countP isStore = [d].count (.store false) + [d].count (.store true) := by
  rcases d with _ | (_ | _) | _ | _ | _ <;> rfl

end Deed

namespace Tally

def evict (t : Tally) (n : ℕ) : Tally := { t with evictions := t.evictions + n }

def record (t : Tally) : Deed → Tally
  | .read true => { t with hits := t.hits + 1 }
  | .read false => { t with misses := t.misses + 1 }
  | .store true => { t with updates := t.updates + 1 }
  | .store false => { t with inserts := t.inserts + 1 }
  | .take _ | .clear _ | .other => t

variable {t t' : Tally} {d : Deed}

theorem record_eq (t : Tally) (d : Deed) : t.record d =
    { hits := t.hits + [d].count (.read true)
      misses := t.misses + [d].count (.read false)
      inserts := t.inserts + [d].count (.store false)
      updates := t.updates + [d].count (.store true)
      evictions := t.evictions } := by
  rcases d with (_ | _) | (_ | _) | _ | _ | _ <;> rfl

theorem hits_record : (t.record d).hits = t.hits + [d].count (.read true) := by rw [record_eq]

/-- A deed that made a map of `size` entries drop some and left it with `size'` entries. -/
structure Settles (t t' : Tally) (size size' : ℕ) (d : Deed) (dropped : ℕ) : Prop where
  tally : t' = (t.record d).evict dropped
  size : size + [d].count (.store false) = size' + dropped + [d].count (.take true) + d.cleared

/-- The tally of a stretch of deeds that took a map from `size` entries to `size'` entries. -/
structure Balances (t : Tally) (size size' : ℕ) (deeds : List Deed) (dropped : ℕ) : Prop where
  hits : t.hits = deeds.count (.read true)
  lookups : t.hits + t.misses = deeds.countP Deed.isRead
  updates : t.updates = deeds.count (.store true)
  stores : t.inserts + t.updates = deeds.countP Deed.isStore
  evictions : t.evictions = dropped
  size : size + t.inserts =
    size' + t.evictions + deeds.count (.take true) + (deeds.map Deed.cleared).sum

theorem balances_nil (size : ℕ) : ({} : Tally).Balances size size [] 0 := by
  constructor <;> rfl

theorem Balances.concat {size size' size'' dropped n : ℕ} {deeds : List Deed}
    (h : t.Balances size size' deeds dropped) (hd : t.Settles t' size' size'' d n) :
    t'.Balances size size'' (deeds ++ [d]) (dropped + n) := by
  obtain ⟨rfl, hsize⟩ := hd
  have hbefore := h.size
  rw [record_eq]
  constructor <;> dsimp only [evict]
  · rw [List.count_append, h.hits]
  · rw [List.countP_append, Deed.countP_isRead, ← h.lookups]
    omega
  · rw [List.count_append, h.updates]
  · rw [List.countP_append, Deed.countP_isStore, ← h.stores]
    omega
  · rw [h.evictions]
  · rw [List.count_append, List.map_append, List.sum_append, List.map_singleton, List.sum_singleton]
    omega

section

variable {S R A E : Type} {respond : S → R → A × S} {P : S → Prop} {tally : S → Tally} {size : S → ℕ}
  {deed : Run.Call S R A → Deed} {reported : S → R → List E} {rs : List R}

theorem Balances.run
    (hstep : ∀ s, ∀ r ∈ rs, P s → P (respond s r).2 ∧
      (tally s).Settles (tally (respond s r).2) (size s) (size (respond s r).2)
        (deed (Run.call respond s r)) (reported s r).length)
    {s : S} (hs : P s) {start dropped : ℕ} {deeds : List Deed}
    (h : (tally s).Balances start (size s) deeds dropped) :
    (tally (Run.after respond s rs)).Balances start (size (Run.after respond s rs))
      (deeds ++ (Run.calls respond s rs).map deed)
      (dropped + ((Run.calls respond s rs).flatMap fun c ↦ reported c.met c.request).length) := by
  -- The calls are taken from the front, so what went before them has to be arbitrary.
  induction rs generalizing s deeds dropped with
  | nil => simpa [Run.calls, Run.after] using h
  | cons r rs ih =>
    obtain ⟨hnext, hr⟩ := hstep s r List.mem_cons_self hs
    have hrest := ih (fun s r' hr' ↦ hstep s r' (List.mem_cons_of_mem r hr')) hnext (h.concat hr)
    rw [List.append_assoc, Nat.add_assoc, ← List.length_append] at hrest
    exact hrest

/-- What settles in each call balances over a run from an empty tally on. -/
theorem balances_calls
    (hstep : ∀ s, ∀ r ∈ rs, P s → P (respond s r).2 ∧
      (tally s).Settles (tally (respond s r).2) (size s) (size (respond s r).2)
        (deed (Run.call respond s r)) (reported s r).length)
    {s : S} (hs : P s) (ht : tally s = {}) :
    (tally (Run.after respond s rs)).Balances (size s) (size (Run.after respond s rs))
      ((Run.calls respond s rs).map deed)
      ((Run.calls respond s rs).flatMap fun c ↦ reported c.met c.request).length := by
  have hempty : (tally s).Balances (size s) (size s) [] 0 := by
    rw [ht]
    exact balances_nil (size s)
  simpa using hempty.run hstep hs

end

end Tally

namespace BoundedMap

open Association

variable {K V L : Type} [BEq K] [Hashable K]

def deed (c : Call K V L) : Deed :=
  match c.request, c.answer with
  | .get _, .value v | .modify _ _, .value v => .read v.isSome
  | .insert _ _, .value v => .store v.isSome
  | .remove _, .value v => .take v.isSome
  | .popEldest, .entry e => .take e.isSome
  | .clear, _ => .clear c.met.size
  | _, _ => .other

variable [Listener L K V] {m : BoundedMap K V L} {start : L} {order : EntryOrder}
  {b : BoundedList K V}

namespace Shows

theorem resetStats (h : m.Shows start order b) : m.resetStats.Shows start order b :=
  h.of_eq h.entries rfl rfl

variable [EquivBEq K] [LawfulHashable K]

theorem tally_dropEldest (h : m.Shows start order b) (n : ℕ) :
    (m.dropEldest n).tally = m.tally.evict (b.entries.take n).length := by
  induction n generalizing m b with
  | zero => rfl
  | succ n ih =>
    obtain ⟨es, maxSize, dropped⟩ := b
    cases es with
    | nil =>
      rw [h.dropEldest_of_nil]
      rfl
    | cons e es =>
      obtain ⟨rest, hpop, hnext⟩ := h.drop_cons
      rw [BoundedMap.dropEldest, hpop]
      refine (ih hnext).trans ?_
      simp only [Tally.evict, notify, List.take_succ_cons, List.length_cons]
      congr 1
      omega

theorem tally_dropOverflow (h : m.Shows start order b) : m.dropOverflow.tally =
    m.tally.evict (b.entries.take (b.entries.length - b.maxSize)).length := by
  rw [BoundedMap.dropOverflow, h.size, h.maxSize]
  exact h.tally_dropEldest _

theorem tally_insert (h : m.Shows start order b) (k : K) (v : V) :
    (m.insert k v).2.tally = (m.tally.record (.store (m.insert k v).1.isSome)).evict
      (b.overflow order (.insert k v)).length := by
  obtain ⟨-, hes⟩ := h.entries.insert k v
  rw [BoundedMap.insert, BoundedList.overflow_insert]
  generalize m.entries.insert k v = stored at hes
  obtain ⟨previous, entries⟩ := stored
  cases previous with
  | none =>
    have hcounted : ({ m with entries }.countInsert).Shows start order
      { b with entries := Association.insert order b.entries k v } := h.of_eq hes rfl rfl
    exact hcounted.tally_dropOverflow
  | some v₀ =>
    have hcounted : ({ m with entries }.countUpdate).Shows start order
      { b with entries := Association.insert order b.entries k v } := h.of_eq hes rfl rfl
    exact hcounted.tally_dropOverflow

theorem tally_lookup (h : m.Shows start order b) {k : K} {found : Option V × OrderedMap K V}
    (hfound : found.1 = value? b.entries k) :
    let looked : Option V × BoundedMap K V L :=
      if m.contains k then (found.1, { m.countHit with entries := found.2 }) else (none, m.countMiss)
    looked.2.tally = m.tally.record (.read looked.1.isSome) := by
  rw [h.contains]
  cases hk : hasKey b.entries k with
  | false => rfl
  | true =>
    have hsome : found.1.isSome = true := by rw [hfound, isSome_value?, hk]
    dsimp only
    rw [if_pos rfl, hsome]
    rfl

theorem tally_respond (h : m.Shows start order b) {r : Request K V} (hr : r ≠ .resetStats) :
    (m.respond r).2.tally =
      (m.tally.record (deed (Run.call BoundedMap.respond m r))).evict (m.reported r).length := by
  rw [h.reported]
  cases r with
  | insert k v => exact h.tally_insert k v
  | get k => exact h.tally_lookup (h.entries.get k).1
  | modify k f => exact h.tally_lookup (h.entries.modify k f).1
  | setMaxSize n =>
    cases n with
    | zero => rfl
    | succ n =>
      have hm : Shows { m with maxSize := n + 1 } start order { b with maxSize := n + 1 } :=
        ⟨h.entries, rfl, h.listener⟩
      exact hm.tally_dropOverflow
  | resetStats => exact absurd rfl hr
  | peek k | contains k | touch k | remove k | popEldest | clear => rfl

theorem size_brimming (h : m.Shows start order b) (r : Request K V) :
    let d := deed (Run.call BoundedMap.respond m r)
    m.size + [d].count (.store false) =
      (m.brimming r).length + [d].count (.take true) + d.cleared := by
  have hanswer := (h.respond r).1
  rw [h.size, h.brimming]
  cases r <;> simp only [Run.call, deed, hanswer, BoundedList.respond, BoundedList.filled, h.size]
  case insert k v =>
    have hlen := (h.entries.distinct.values_insert order k v).length_eq
    rw [List.length_cons, List.length_map, List.length_append, List.length_map] at hlen
    cases hv : value? b.entries k <;> simp [hv, Deed.cleared] at hlen ⊢ <;> omega
  case remove k =>
    have hlen := (h.entries.distinct.perm_without k).length_eq
    rw [List.length_append] at hlen
    cases hl : lookup? b.entries k <;> simp [value?, hl, Deed.cleared] at hlen ⊢ <;> omega
  case popEldest => cases b.entries <;> simp [Deed.cleared]
  all_goals simp [Deed.cleared]

theorem settles (h : m.Shows start order b) {r : Request K V} (hr : r ≠ .resetStats) :
    m.tally.Settles (m.respond r).2.tally m.size (m.respond r).2.size
      (deed (Run.call BoundedMap.respond m r)) (m.reported r).length where
  tally := h.tally_respond hr
  size := by
    have hsplit := congrArg List.length (h.reported_append r)
    have hsize := h.size_brimming r
    rw [List.length_append, (h.respond r).2.toList, ← (h.respond r).2.size] at hsplit
    omega

theorem balances_after (h : m.Shows start order b) (ht : m.tally = {}) {rs : List (Request K V)}
    (hrs : Request.resetStats ∉ rs) :
    let calls := Run.calls BoundedMap.respond m rs
    let m' := Run.after BoundedMap.respond m rs
    m'.tally.Balances m.size m'.size (calls.map deed)
      (calls.flatMap fun c ↦ c.met.reported c.request).length := by
  refine Tally.balances_calls (P := fun m ↦ ∃ b, Shows m start order b) ?_ ⟨b, h⟩ ht
  rintro m r hr ⟨b, h⟩
  have hkeep : r ≠ .resetStats := by
    rintro rfl
    exact hrs hr
  exact ⟨⟨_, (h.respond r).2⟩, h.settles hkeep⟩

end Shows

end BoundedMap

end Holdall
