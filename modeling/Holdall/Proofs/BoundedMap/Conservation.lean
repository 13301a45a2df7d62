import Holdall.Proofs.BoundedMap.Overflow
import Mathlib.Algebra.Order.Group.Multiset
import Mathlib.Tactic.Abel

namespace Holdall.BoundedMap

open Association

variable {K V L : Type} [BEq K] [Hashable K]

def values (m : BoundedMap K V L) : Multiset V := m.entries.values

def stored (c : Call K V L) : Multiset V :=
  match c.request with
  | .insert _ v => {v}
  | _ => 0

def replaced (c : Call K V L) : Multiset V :=
  match c.request, c.answer with
  | .insert _ _, .value v => v.toList
  | _, _ => 0

def removed (c : Call K V L) : Multiset V :=
  match c.request, c.answer with
  | .remove _, .value v => v.toList
  | .popEldest, .entry e => (e.map Prod.snd).toList
  | _, _ => 0

def heard (c : Call K V L) : Multiset V := (c.met.reported c.request).map Prod.snd

def cleared (c : Call K V L) : Multiset V :=
  match c.request with
  | .clear => c.met.values
  | _ => 0

variable [Listener L K V] [EquivBEq K] [LawfulHashable K] {m : BoundedMap K V L} {start : L}
  {order : EntryOrder} {b : BoundedList K V}

namespace Shows

omit [Listener L K V] [EquivBEq K] [LawfulHashable K] in
theorem values_eq [Listener L K V] (h : m.Shows start order b) : m.values = b.entries.map Prod.snd := by
  rw [values, OrderedMap.values, h.entries.toList]

theorem values_brimming (h : m.Shows start order b) {r : Request K V} (hr : ∀ k f, r ≠ .modify k f) :
    let c := Run.call BoundedMap.respond m r
    m.values + stored c = ↑((m.brimming r).map Prod.snd) + (replaced c + removed c + cleared c) := by
  have hanswer := (h.respond r).1
  have hd := h.entries.distinct
  rw [h.brimming, h.values_eq]
  cases r <;> simp only [stored, replaced, removed, cleared, Run.call, hanswer, h.values_eq,
    BoundedList.respond, BoundedList.filled, add_zero, zero_add]
  case insert k v =>
    have hstore := Multiset.coe_eq_coe.2 (hd.values_insert order k v)
    rw [← Multiset.cons_coe, ← Multiset.coe_add, ← Multiset.singleton_add] at hstore
    rw [add_comm, hstore, add_comm]
  case remove k =>
    have hgone := Multiset.coe_eq_coe.2 ((hd.perm_without k).map Prod.snd)
    rw [List.map_append, ← Multiset.coe_add] at hgone
    rw [hgone, add_comm, value?]
    cases lookup? b.entries k <;> rfl
  case popEldest =>
    cases b.entries with
    | nil => rfl
    | cons e es =>
      have hpop := Multiset.coe_eq_coe.2 (List.perm_append_singleton e.2 (es.map Prod.snd))
      rw [← Multiset.coe_add] at hpop
      exact hpop.symm
  case get k | touch k =>
    exact (Multiset.coe_eq_coe.2 ((use_perm order b.entries k).map Prod.snd)).symm
  case clear => exact (zero_add _).symm
  case modify k f => exact absurd rfl (hr k f)

theorem values_respond (h : m.Shows start order b) {r : Request K V} (hr : ∀ k f, r ≠ .modify k f) :
    let c := Run.call BoundedMap.respond m r
    m.values + stored c =
      (m.respond r).2.values + (replaced c + removed c + heard c + cleared c) := by
  have hbrim := h.values_brimming hr
  have hheard : (↑((m.brimming r).map Prod.snd) : Multiset V) =
      heard (Run.call BoundedMap.respond m r) + (m.respond r).2.values := by
    rw [← h.reported_append, List.map_append, ← Multiset.coe_add]
    rfl
  dsimp only at hbrim ⊢
  rw [hbrim, hheard]
  abel

end Shows

/-- Over a run the values that were stored are the values that are there, and those that left; and a key
that the listener hears of is gone when the call that reported it returns. -/
theorem values_conserved (maxSize : ℕ) (start : L) (order : EntryOrder) (rs : List (Request K V))
    (hrs : ∀ k f, Request.modify k f ∉ rs) :
    let calls := Run.calls respond (create maxSize start order : BoundedMap K V L) rs
    let m : BoundedMap K V L := Run.after respond (create maxSize start order) rs
    (calls.map stored).sum = m.values + (calls.map replaced).sum + (calls.map removed).sum +
        (calls.map heard).sum + (calls.map cleared).sum ∧
      m.listener = hearing start (calls.flatMap fun c ↦ c.met.reported c.request) ∧
      ∀ c ∈ calls, ∀ e ∈ c.met.reported c.request,
        (c.met.respond c.request).2.contains e.1 = false := by
  intro calls m
  have hempty : (create maxSize start order : BoundedMap K V L).Shows start order { maxSize } :=
    shows_create maxSize start order
  have hkeep : ∀ r ∈ rs, ∀ k f, r ≠ .modify k f := by
    rintro _ hr k f rfl
    exact hrs k f hr
  refine ⟨?_, hempty.listener_after rs, ?_⟩
  · have hstep : ∀ m : BoundedMap K V L, ∀ r ∈ rs, (∃ b, m.Shows start order b) →
        (∃ b, (m.respond r).2.Shows start order b) ∧ m.values + stored (Run.call respond m r) =
          (m.respond r).2.values + (replaced (Run.call respond m r) + removed (Run.call respond m r) +
            heard (Run.call respond m r) + cleared (Run.call respond m r)) := by
      rintro m r hr ⟨b, h⟩
      exact ⟨⟨_, (h.respond r).2⟩, h.values_respond (hkeep r hr)⟩
    have hsum := Run.sum_calls values stored (fun c ↦ replaced c + removed c + heard c + cleared c)
      hstep ⟨_, hempty⟩
    have hzero : (create maxSize start order : BoundedMap K V L).values = 0 := hempty.values_eq
    simp only [List.sum_map_add, hzero, zero_add] at hsum
    rw [hsum]
    abel
  · exact Run.forall_calls (P := fun m ↦ ∃ b, Shows m start order b)
      (fun _ r _ ⟨_, h⟩ ↦ ⟨⟨_, (h.respond r).2⟩, fun _ ↦ h.not_contains_of_reported⟩) ⟨_, hempty⟩

theorem values_conserved_folded : EquivBEq Item ∧ LawfulHashable Item ∧
    let rs : List (Request Item ℕ) := [.insert (.folded "a") 1, .insert (.folded "A") 2,
      .insert (.text "b") 3, .insert (.text "c") 4, .remove (.text "b"), .insert (.text "b") 5,
      .popEldest, .insert (.text "c") 6, .clear]
    (∀ k f, Request.modify k f ∉ rs) ∧
    let calls := Run.calls respond (create 2 ⟨[]⟩ : BoundedMap Item ℕ (Recorder Item ℕ)) rs
    let m : BoundedMap Item ℕ (Recorder Item ℕ) := Run.after respond (create 2 ⟨[]⟩) rs
    (calls.map stored).sum = m.values + (calls.map replaced).sum + (calls.map removed).sum +
        (calls.map heard).sum + (calls.map cleared).sum ∧
      m.listener = hearing ⟨[]⟩ (calls.flatMap fun c ↦ c.met.reported c.request) ∧
      ∀ c ∈ calls, ∀ e ∈ c.met.reported c.request,
        (c.met.respond c.request).2.contains e.1 = false :=
  ⟨inferInstance, inferInstance, by simp,
    values_conserved 2 (Recorder.mk []) .access _ (by simp)⟩

end Holdall.BoundedMap
