import Holdall.Proofs.BoundedMap.Tally
import Holdall.Proofs.SharedMap.Refinement

namespace Holdall

open Association

variable {K V L L' : Type} [BEq K] [Hashable K]

theorem Tally.settles_other {t t' : Tally} {size size' n : ℕ} (ht : t' = t.evict n)
    (hsize : size = size' + n) : t.Settles t' size size' .other n := ⟨ht, hsize⟩

theorem Tally.evict_evict (t : Tally) (n n' : ℕ) : (t.evict n).evict n' = t.evict (n + n') := by
  simp only [evict, Nat.add_assoc]

theorem BoundedMap.tally_dropKey [Listener L K V] (m : BoundedMap K V L) (k : K) :
    (m.dropKey k).2.tally = m.tally.evict (if (m.dropKey k).1 then 1 else 0) := by
  rw [dropKey]
  split <;> rfl

namespace SharedMap

open BoundedMap (hearing)

abbrev Call (K V L : Type) [BEq K] [Hashable K] :=
  Run.Call (SharedMap K V L) (Request K V) (Answer V)

def tally (m : SharedMap K V L) : Tally := m.bounded.tally

def deed (c : Call K V L) : Deed :=
  match c.request, c.answer with
  | .get _, .handle h => .read h.isSome
  | .insert _ _ _, .handle h | .insertHandle _ _, .handle h => .store h.isSome
  | .remove _, .handle h => .take h.isSome
  | .clear, _ => .clear c.met.size
  | _, _ => .other

variable [Listener L K (Handle V)] {m : SharedMap K V L} {start : L} {order : EntryOrder}
  {b : BoundedList K (Handle V)} {r : Request K V} {q : BoundedMap.Request K (Handle V)}
  {outside : List (Handle V)} {target : ℕ}

theorem deed_of_ask (hr : r.inner = .ask q) (m : SharedMap K V L) :
    deed (Run.call respond m r) = BoundedMap.deed (Run.call BoundedMap.respond m.bounded q) := by
  cases r with
  | setMaxSize n =>
    cases hr
    cases n <;> rfl
  | reclaimTo outside target | reclaim outside => nomatch hr
  | _ =>
    cases hr
    rfl

theorem deed_of_drop (hr : r.inner = .drop outside target) (m : SharedMap K V L) :
    deed (Run.call respond m r) = .other := by
  cases r <;> cases hr <;> rfl

omit [BEq K] [Hashable K] [Listener L K (Handle V)] in
theorem ne_resetStats_of_ask (hr : r.inner = .ask q) : q ≠ .resetStats := by
  rintro rfl
  cases r <;> cases hr

theorem tally_dropKeys (m : SharedMap K V L) (ks : List K) :
    (m.dropKeys ks).2.tally = m.tally.evict (m.dropKeys ks).1 := by
  induction ks generalizing m with
  | nil => rfl
  | cons k ks ih =>
    have hrest := ih ⟨(m.bounded.dropKey k).2⟩
    rw [tally, tally, m.bounded.tally_dropKey, Tally.evict_evict] at hrest
    rw [fst_dropKeys_cons]
    exact hrest

namespace Shows

variable [EquivBEq K] [LawfulHashable K]

theorem settles_of_drop (h : m.Shows start order b) (hr : r.inner = .drop outside target) :
    m.tally.Settles (m.respond r).2.tally m.size (m.respond r).2.size
      (deed (Run.call SharedMap.respond m r)) (m.reported r).length := by
  obtain ⟨hcount, hrest⟩ := h.reclaimTo outside target
  have hlen := (h.entries.distinct.perm_taken (b.reclaimable outside target)).length_eq
  have hbefore : m.size = b.entries.length := h.size
  have hafter : (m.reclaimTo outside target).map.size =
      (b.dropKeys (b.reclaimable outside target)).entries.length := hrest.size
  rw [List.length_append, Nat.add_comm] at hlen
  rw [deed_of_drop hr, respond_of_drop hr, h.reported_of_drop hr, hbefore, hafter]
  refine Tally.settles_other ?_ hlen
  rw [← hcount, (reclaimTo_eq m outside target).1, (reclaimTo_eq m outside target).2]
  exact tally_dropKeys m _

theorem settles (h : m.Shows start order b) (r : Request K V) :
    m.tally.Settles (m.respond r).2.tally m.size (m.respond r).2.size
      (deed (Run.call SharedMap.respond m r)) (m.reported r).length := by
  cases hr : r.inner with
  | ask q =>
    rw [tally, tally, size, size, respond_of_ask hr, deed_of_ask hr, reported_of_ask hr]
    exact BoundedMap.Shows.settles h (ne_resetStats_of_ask hr)
  | drop outside target => exact h.settles_of_drop hr

theorem balances_after (h : m.Shows start order b) (ht : m.tally = {})
    (rs : List (Request K V)) :
    let calls := Run.calls SharedMap.respond m rs
    let m' := Run.after SharedMap.respond m rs
    m'.tally.Balances m.size m'.size (calls.map deed)
      (calls.flatMap fun c ↦ c.met.reported c.request).length := by
  refine Tally.balances_calls (P := fun m ↦ ∃ b, Shows m start order b) ?_ ⟨b, h⟩ ht
  rintro m r - ⟨b, h⟩
  exact ⟨(h.respond r).1, h.settles r⟩

end Shows

variable [EquivBEq K] [LawfulHashable K] [Listener L' K V]

/-- From a reset on, the counters of a bounded map balance with what its calls answered and what its
listener heard, and so do those of a shared map from its creation on, where what is reclaimed counts
as evicted. -/
theorem stats_balance (maxSize : ℕ) (start : L) (start' : L') (order : EntryOrder)
    (before rs : List (BoundedMap.Request K V)) (hrs : .resetStats ∉ rs) (qs : List (Request K V)) :
    (let m : BoundedMap K V L' :=
        (Run.after BoundedMap.respond (.create maxSize start' order) before).resetStats
      let calls := Run.calls BoundedMap.respond m rs
      let heard := calls.flatMap fun c ↦ c.met.reported c.request
      let m' := Run.after BoundedMap.respond m rs
      m'.stats.Balances m.size m'.stats.size (calls.map BoundedMap.deed) heard.length ∧
        m'.listener = hearing m.listener heard) ∧
    (let m : SharedMap K V L := ⟨.create maxSize start order⟩
      let calls := Run.calls respond m qs
      let heard := calls.flatMap fun c ↦ c.met.reported c.request
      let m' := Run.after respond m qs
      m'.stats.Balances m.size m'.stats.size (calls.map deed) heard.length ∧
        m'.listener = hearing m.listener heard ∧
        ∀ c ∈ calls, ∀ n, c.answer = .count n → (c.met.reported c.request).length = n) := by
  have hreset := ((BoundedMap.shows_create (K := K) (V := V) maxSize start' order).after
    before).resetStats
  have hshared : Shows (⟨.create maxSize start order⟩ : SharedMap K V L) start order { maxSize } :=
    BoundedMap.shows_create maxSize start order
  refine ⟨⟨hreset.balances_after rfl hrs, hreset.listener_after rs⟩,
    hshared.balances_after rfl qs, hshared.listener_after qs, ?_⟩
  exact Run.forall_calls (P := fun m ↦ ∃ b, Shows m start order b)
    (fun _ r _ ⟨_, h⟩ ↦ ⟨(h.respond r).1, fun _ ↦ h.length_reported⟩) ⟨_, hshared⟩

theorem stats_balance_folded : EquivBEq Item ∧ LawfulHashable Item ∧
    let rs : List (BoundedMap.Request Item ℕ) := [.insert (.folded "A") 2, .insert (.text "b") 3,
      .insert (.text "c") 4, .get (.folded "a"), .remove (.text "b"), .setMaxSize 1, .clear]
    let qs : List (Request Item ℕ) := [.insert ⟨0⟩ (.folded "a") 1, .insert ⟨1⟩ (.text "b") 2,
      .insert ⟨2⟩ (.text "c") 3, .get (.text "b"), .reclaimTo [⟨1, 2⟩] 1, .reclaim [⟨1, 2⟩]]
    .resetStats ∉ rs ∧
    (let m : BoundedMap Item ℕ EvictionCounter :=
        (Run.after BoundedMap.respond (.create 2 ⟨0⟩ .access) [.insert (.folded "a") 1]).resetStats
      let calls := Run.calls BoundedMap.respond m rs
      let heard := calls.flatMap fun c ↦ c.met.reported c.request
      let m' := Run.after BoundedMap.respond m rs
      m'.stats.Balances m.size m'.stats.size (calls.map BoundedMap.deed) heard.length ∧
        m'.listener = hearing m.listener heard) ∧
    (let m : SharedMap Item ℕ Silent := ⟨.create 2 ⟨⟩ .access⟩
      let calls := Run.calls respond m qs
      let heard := calls.flatMap fun c ↦ c.met.reported c.request
      let m' := Run.after respond m qs
      m'.stats.Balances m.size m'.stats.size (calls.map deed) heard.length ∧
        m'.listener = hearing m.listener heard ∧
        ∀ c ∈ calls, ∀ n, c.answer = .count n → (c.met.reported c.request).length = n) :=
  ⟨inferInstance, inferInstance, by simp,
    stats_balance 2 Silent.mk (EvictionCounter.mk 0) .access _ _ (by simp) _⟩

end SharedMap

end Holdall
