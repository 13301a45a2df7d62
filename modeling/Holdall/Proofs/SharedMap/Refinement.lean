import Holdall.Proofs.BoundedMap.Overflow
import Holdall.SharedMap

namespace Holdall

open Association

variable {K V L L' : Type} [BEq K]

namespace Association

def taken (s : List (K × V)) : List K → List (K × V)
  | [] => []
  | k :: ks => (lookup? s k).toList ++ taken (without s k) ks

theorem Distinct.perm_taken [EquivBEq K] {s : List (K × V)} (h : Distinct s) (ks : List K) :
    s.Perm (taken s ks ++ ks.foldl Association.without s) := by
  induction ks generalizing s with
  | nil => exact .refl s
  | cons k ks ih =>
    have hrest := (ih (h.without k)).append_left (lookup? s k).toList
    rw [← List.append_assoc] at hrest
    exact (h.perm_without k).trans hrest

end Association

namespace BoundedList

def dropKeys (b : BoundedList K V) (ks : List K) : BoundedList K V :=
  { b with entries := ks.foldl without b.entries, dropped := b.dropped ++ taken b.entries ks }

/-- The eldest keys whose cells have one handle only, as many as exceed the target. -/
def reclaimable (b : BoundedList K (Handle V)) (outside : List (Handle V)) (target : ℕ) : List K :=
  ((b.entries.filter fun e ↦ b.entries.countP (·.2.cell == e.2.cell) +
    outside.countP (·.cell == e.2.cell) == 1).map Prod.fst).take (b.entries.length - target)

end BoundedList

theorem BoundedMap.Shows.dropKey [Hashable K] [EquivBEq K] [LawfulHashable K] [Listener L K V]
    {m : BoundedMap K V L} {start : L} {order : EntryOrder} {b : BoundedList K V}
    (h : m.Shows start order b) (k : K) :
    (m.dropKey k).1 = (lookup? b.entries k).isSome ∧ (m.dropKey k).2.Shows start order
      ⟨without b.entries k, b.maxSize, b.dropped ++ (lookup? b.entries k).toList⟩ := by
  obtain ⟨he, hrest⟩ := h.entries.removeEntry k
  rw [BoundedMap.dropKey]
  generalize m.entries.removeEntry k = removed at he hrest
  obtain ⟨e, rest⟩ := removed
  cases hl : lookup? b.entries k with
  | none =>
    obtain rfl : e = none := he.trans hl
    rw [without_of_absent (lookup?_eq_none.1 hl), Option.toList_none, List.append_nil]
    exact ⟨rfl, h⟩
  | some e' =>
    obtain rfl : e = some e' := he.trans hl
    refine ⟨rfl, hrest, h.maxSize, ?_⟩
    rw [BoundedMap.hearing_append, ← h.listener]
    rfl

namespace SharedMap

open BoundedMap (hearing hearing_append hearing_recorder)

/-- Between two calls the handles outside may change as they like, so a request that depends on them
brings them along. -/
inductive Request (K V : Type)
  | insert (cells : CellSupply) (k : K) (v : V)
  | insertHandle (k : K) (h : Handle V)
  | get (k : K)
  | peek (k : K)
  | contains (k : K)
  | isReferenced (outside : List (Handle V)) (k : K)
  | remove (k : K)
  | setMaxSize (n : ℕ)
  | reclaimTo (outside : List (Handle V)) (target : ℕ)
  | reclaim (outside : List (Handle V))
  | clear

inductive Answer (V : Type)
  | handle (h : Option (Handle V))
  | value (v : Option V)
  | flag (b : Bool)
  | count (n : ℕ)
  | refused (e : ConfigError)
  | done

def Answer.ofExcept : Except ConfigError Unit → Answer V
  | .ok () => done
  | .error e => refused e

inductive Inner (K V : Type)
  | ask (q : BoundedMap.Request K (Handle V))
  | drop (outside : List (Handle V)) (target : ℕ)

def Request.inner : Request K V → Inner K V
  | .insert cells k v => .ask (.insert k (cells.share v).1)
  | .insertHandle k h => .ask (.insert k h)
  | .get k => .ask (.get k)
  | .peek k | .isReferenced _ k => .ask (.peek k)
  | .contains k => .ask (.contains k)
  | .remove k => .ask (.remove k)
  | .setMaxSize n => .ask (.setMaxSize n)
  | .clear => .ask .clear
  | .reclaimTo outside target => .drop outside target
  | .reclaim outside => .drop outside 0

variable [Hashable K]

section

variable [Listener L K (Handle V)]

def respond (m : SharedMap K V L) : Request K V → Answer V × SharedMap K V L
  | .insert cells k v =>
    let (h, m, _) := m.insert cells k v
    (.handle h, m)
  | .insertHandle k h => (m.insertHandle k h).map .handle id
  | .get k => (m.get k).map .handle id
  | .peek k => (.value (m.peek? k), m)
  | .contains k => (.flag (m.contains k), m)
  | .isReferenced outside k => (.flag (m.isReferenced outside k), m)
  | .remove k => (m.remove k).map .handle id
  | .setMaxSize n => (m.setMaxSize n).map .ofExcept id
  | .reclaimTo outside target =>
    let r := m.reclaimTo outside target
    (.count r.count, r.map)
  | .reclaim outside =>
    let r := m.reclaim outside
    (.count r.count, r.map)
  | .clear => (.done, m.clear)

end

def withListener (m : SharedMap K V L) (l : L') : SharedMap K V L' := ⟨m.bounded.withListener l⟩

def reported (m : SharedMap K V L) (r : Request K V) : List (K × Handle V) :=
  ((m.withListener (⟨[]⟩ : Recorder K (Handle V))).respond r).2.listener.entries

variable [Listener L K (Handle V)] {m : SharedMap K V L} {start : L} {order : EntryOrder}
  {b : BoundedList K (Handle V)} {r : Request K V} {q : BoundedMap.Request K (Handle V)}
  {outside : List (Handle V)} {target : ℕ}

theorem respond_of_ask (hr : r.inner = .ask q) (m : SharedMap K V L) :
    (m.respond r).2.bounded = (m.bounded.respond q).2 := by
  cases r with
  | setMaxSize n =>
    cases hr
    cases n <;> rfl
  | reclaimTo outside target | reclaim outside => nomatch hr
  | _ =>
    cases hr
    rfl

theorem ne_count_of_ask (hr : r.inner = .ask q) (m : SharedMap K V L) (n : ℕ) :
    (m.respond r).1 ≠ .count n := by
  cases r with
  | setMaxSize n => cases n <;> exact nofun
  | reclaimTo outside target | reclaim outside => nomatch hr
  | _ => exact nofun

theorem respond_of_drop (hr : r.inner = .drop outside target) (m : SharedMap K V L) :
    m.respond r = (.count (m.reclaimTo outside target).count, (m.reclaimTo outside target).map) := by
  cases r <;> cases hr <;> rfl

omit [Listener L K (Handle V)] in
theorem reported_of_ask (hr : r.inner = .ask q) (m : SharedMap K V L) :
    m.reported r = m.bounded.reported q := by
  rw [reported, listener, respond_of_ask hr]
  rfl

/-- The map stands for the bounded list `b` of handles, and its listener was `start` at first. -/
abbrev Shows (m : SharedMap K V L) (start : L) (order : EntryOrder)
    (b : BoundedList K (Handle V)) : Prop := m.bounded.Shows start order b

theorem fst_dropKeys_cons (m : SharedMap K V L) (k : K) (ks : List K) :
    (m.dropKeys (k :: ks)).1 =
      (if (m.bounded.dropKey k).1 then 1 else 0) + (dropKeys ⟨(m.bounded.dropKey k).2⟩ ks).1 := by
  have hcons : (m.dropKeys (k :: ks)).1 = if (m.bounded.dropKey k).1 then
      (dropKeys ⟨(m.bounded.dropKey k).2⟩ ks).1 + 1
    else (dropKeys ⟨(m.bounded.dropKey k).2⟩ ks).1 := rfl
  rw [hcons]
  split <;> omega

theorem reclaimTo_eq (m : SharedMap K V L) (outside : List (Handle V)) (target : ℕ) :
    (m.reclaimTo outside target).count = (m.dropKeys (m.reclaimable outside target)).1 ∧
      (m.reclaimTo outside target).map = (m.dropKeys (m.reclaimable outside target)).2 := by
  rw [reclaimTo]
  split
  · next hroom =>
    have hnone : m.reclaimable outside target = [] := by
      rw [SharedMap.reclaimable, hroom, List.take_zero]
    rw [hnone]
    exact ⟨rfl, rfl⟩
  · exact ⟨rfl, rfl⟩

namespace Shows

theorem reclaimable (h : m.Shows start order b) (outside : List (Handle V)) (target : ℕ) :
    m.reclaimable outside target = b.reclaimable outside target := by
  have hlist : m.handles = b.entries := h.toList
  have hsize : m.size = b.entries.length := h.size
  simp only [SharedMap.reclaimable, BoundedList.reclaimable, holders, hlist, hsize]

variable [EquivBEq K] [LawfulHashable K]

theorem dropKeys (h : m.Shows start order b) (ks : List K) :
    (m.dropKeys ks).1 = (taken b.entries ks).length ∧
      (m.dropKeys ks).2.Shows start order (b.dropKeys ks) := by
  induction ks generalizing m b with
  | nil =>
    rw [BoundedList.dropKeys, taken, List.append_nil]
    exact ⟨rfl, h⟩
  | cons k ks ih =>
    obtain ⟨hfound, hnext⟩ := h.dropKey k
    obtain ⟨hcount, hrest⟩ := ih (m := ⟨(m.bounded.dropKey k).2⟩) hnext
    constructor
    · rw [fst_dropKeys_cons, hfound, hcount, taken, List.length_append]
      cases lookup? b.entries k <;> rfl
    · rw [BoundedList.dropKeys, taken, ← List.append_assoc]
      exact hrest

theorem reclaimTo (h : m.Shows start order b) (outside : List (Handle V)) (target : ℕ) :
    (m.reclaimTo outside target).count =
        (taken b.entries (b.reclaimable outside target)).length ∧
      (m.reclaimTo outside target).map.Shows start order
        (b.dropKeys (b.reclaimable outside target)) := by
  obtain ⟨hcount, hmap⟩ := reclaimTo_eq m outside target
  rw [hcount, hmap, h.reclaimable]
  exact h.dropKeys _

theorem reported_of_drop (h : m.Shows start order b) (hr : r.inner = .drop outside target) :
    m.reported r = taken b.entries (b.reclaimable outside target) := by
  have hrecorder : (m.withListener (⟨[]⟩ : Recorder K (Handle V))).Shows ⟨[]⟩ order
      { b with dropped := [] } := h.withListener _
  have hheard := (hrecorder.reclaimTo outside target).2.listener
  rw [hearing_recorder] at hheard
  rw [reported, listener, respond_of_drop hr, hheard]
  rfl

theorem respond (h : m.Shows start order b) (r : Request K V) :
    (∃ b', (m.respond r).2.Shows start order b') ∧
      (m.respond r).2.listener = hearing m.listener (m.reported r) := by
  cases hr : r.inner with
  | ask q =>
    have hnext := (BoundedMap.Shows.respond h q).2
    rw [← respond_of_ask hr] at hnext
    refine ⟨⟨_, hnext⟩, ?_⟩
    rw [listener, respond_of_ask hr, reported_of_ask hr]
    exact h.listener_respond q
  | drop outside target =>
    have hrest := (h.reclaimTo outside target).2
    rw [respond_of_drop hr, h.reported_of_drop hr]
    refine ⟨⟨_, hrest⟩, ?_⟩
    rw [listener, hrest.listener, BoundedList.dropKeys, hearing_append, ← h.listener]
    rfl

theorem length_reported (h : m.Shows start order b) {n : ℕ} (hn : (m.respond r).1 = .count n) :
    (m.reported r).length = n := by
  cases hr : r.inner with
  | ask q => exact absurd hn (ne_count_of_ask hr m n)
  | drop outside target =>
    rw [respond_of_drop hr, Answer.count.injEq, (h.reclaimTo outside target).1] at hn
    rw [h.reported_of_drop hr, hn]

theorem listener_after (h : m.Shows start order b) (rs : List (Request K V)) :
    (Run.after SharedMap.respond m rs).listener = hearing m.listener
      ((Run.calls SharedMap.respond m rs).flatMap fun c ↦ c.met.reported c.request) :=
  BoundedMap.hearing_after (P := fun m ↦ ∃ b, Shows m start order b)
    (fun _ r ⟨_, h⟩ ↦ h.respond r) ⟨b, h⟩ rs

end Shows

end SharedMap

end Holdall
