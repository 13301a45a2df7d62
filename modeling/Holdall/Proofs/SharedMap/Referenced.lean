import Holdall.Proofs.SharedMap.Reclaim
import Holdall.SharedMap.Custody

namespace Holdall.SharedMap

open Association

variable {K V L : Type} [BEq K] [Hashable K] [EquivBEq K] [Listener L K (Handle V)]
  {m : SharedMap K V L} {start : L} {order : EntryOrder} {b : BoundedList K (Handle V)}
  {outside : List (Handle V)} {k : K} {e : K × Handle V}

/-- Whoever shares a cell with another entry shares it with somebody outside as well. -/
def SharedOutside (m : SharedMap K V L) (outside : List (Handle V)) : Prop :=
  ∀ e ∈ m.handles, HeldTwice m.handles e → HeldOutside outside e.2.cell

namespace Shows

omit [EquivBEq K] in
theorem distinct_handles (h : m.Shows start order b) : Distinct m.handles := by
  rw [h.handles]
  exact h.entries.distinct

theorem one_lt_holders (h : m.Shows start order b) (he : e ∈ m.handles) :
    1 < m.holders outside e.2.cell ↔ HeldOutside outside e.2.cell ∨ HeldTwice m.handles e :=
  one_lt_holdersIn h.distinct_handles outside he

theorem isReferenced (h : m.Shows start order b) (outside : List (Handle V)) (k : K) :
    m.isReferenced outside k = true ↔ ∃ e ∈ m.handles, (e.1 == k) = true ∧
      (HeldOutside outside e.2.cell ∨ HeldTwice m.handles e) := by
  have hd := h.entries.distinct
  have hpeek : m.bounded.peek? k = value? b.entries k := h.entries.peek? k
  rw [SharedMap.isReferenced, hpeek, value?]
  cases hk : lookup? b.entries k with
  | none =>
    have habsent := List.any_eq_false.1 (lookup?_eq_none.1 hk)
    constructor
    · intro hf
      exact absurd hf Bool.false_ne_true
    · rintro ⟨e, he, hek, -⟩
      rw [h.handles] at he
      exact absurd hek (habsent e he)
  | some e =>
    have he : e ∈ m.handles := by
      rw [h.handles]
      exact mem_of_lookup? hk
    simp only [Option.map_some, decide_eq_true_eq, gt_iff_lt, h.one_lt_holders he]
    constructor
    · intro hheld
      exact ⟨e, he, beq_of_lookup? hk, hheld⟩
    · rintro ⟨e', he', hek', hheld⟩
      rw [h.handles] at he'
      rw [hd.lookup?_eq_some.2 ⟨he', hek'⟩, Option.some.injEq] at hk
      rwa [← hk]

variable [LawfulHashable K]

theorem held_of_reclaim (h : m.Shows start order b) {outside : List (Handle V)}
    (he : e ∈ (m.reclaim outside).map.handles) :
    HeldOutside outside e.2.cell ∨ HeldTwice (m.reclaim outside).map.handles e := by
  have hleft := (h.reclaimTo_surplus outside 0).2
  have hnone : loneIn (m.reclaim outside).map.handles outside = [] := by
    rw [← surplus_zero, SharedMap.reclaim, hleft.handles]
    exact surplus_stays h.entries.distinct outside 0
  have hmore : 1 < (m.reclaim outside).map.holders outside e.2.cell := by
    have hpos := holdersIn_pos outside he
    have hne : holdersIn (m.reclaim outside).map.handles outside e.2.cell ≠ 1 := by
      simpa using List.filter_eq_nil_iff.1 hnone e he
    exact Nat.lt_of_le_of_ne hpos hne.symm
  exact (Shows.one_lt_holders hleft he).1 hmore

omit [LawfulHashable K] in
theorem isReferenced_iff_heldOutside (h : m.Shows start order b) (outside : List (Handle V)) :
    (∀ k, m.isReferenced outside k = true ↔
      ∃ e ∈ m.handles, (e.1 == k) = true ∧ HeldOutside outside e.2.cell) ↔
    m.SharedOutside outside := by
  constructor
  · intro hclaim e he htwice
    have href : m.isReferenced outside e.1 = true :=
      (h.isReferenced outside e.1).2 ⟨e, he, BEq.rfl, .inr htwice⟩
    obtain ⟨e', he', hkey, hheld⟩ := (hclaim e.1).1 href
    rwa [← h.distinct_handles.eq_of_mem he' he hkey]
  · intro hshared k
    rw [h.isReferenced]
    constructor
    · rintro ⟨e, he, hek, hheld | htwice⟩
      · exact ⟨e, he, hek, hheld⟩
      · exact ⟨e, he, hek, hshared e he htwice⟩
    · rintro ⟨e, he, hek, hheld⟩
      exact ⟨e, he, hek, .inl hheld⟩

theorem heldOutside_of_reclaim_iff (h : m.Shows start order b) (outside : List (Handle V)) :
    (∀ e ∈ (m.reclaim outside).map.handles, HeldOutside outside e.2.cell) ↔
      m.SharedOutside outside := by
  constructor
  · intro hclaim e he htwice
    exact hclaim e (h.stays he ((h.one_lt_holders he).2 (.inr htwice)))
  · intro hshared e he
    rcases h.held_of_reclaim he with hheld | ⟨e', he', hkey, hcell⟩
    · exact hheld
    · have hsub : (m.reclaim outside).map.handles ⊆ m.handles := by
        intro f hf
        rw [SharedMap.reclaim, (h.reclaimTo_surplus outside 0).2.handles] at hf
        rw [h.handles]
        exact List.mem_of_mem_filter hf
      exact hshared e (hsub he) ⟨e', hsub he', hkey, hcell⟩

end Shows

variable [LawfulHashable K]

/-- A key is referenced when its value has a handle outside or under another key, and what reclaiming
leaves is referenced. That somebody outside has the value holds of all referenced keys, and of all that
is left, exactly when those who share a cell share it with somebody outside. -/
theorem isReferenced_iff (maxSize : ℕ) (start : L) (order : EntryOrder) (qs : List (Request K V))
    (outside : List (Handle V)) :
    let m : SharedMap K V L := Run.after respond ⟨.create maxSize start order⟩ qs
    let left := (m.reclaim outside).map
    (∀ k, m.isReferenced outside k = true ↔ ∃ e ∈ m.handles, (e.1 == k) = true ∧
      (HeldOutside outside e.2.cell ∨ HeldTwice m.handles e)) ∧
    (∀ e ∈ left.handles, HeldOutside outside e.2.cell ∨ HeldTwice left.handles e) ∧
    ((∀ k, m.isReferenced outside k = true ↔
      ∃ e ∈ m.handles, (e.1 == k) = true ∧ HeldOutside outside e.2.cell) ↔
        m.SharedOutside outside) ∧
    ((∀ e ∈ left.handles, HeldOutside outside e.2.cell) ↔ m.SharedOutside outside) := by
  intro m left
  obtain ⟨b, h⟩ := shows_after maxSize start order qs
  exact ⟨h.isReferenced outside, fun e ↦ h.held_of_reclaim, h.isReferenced_iff_heldOutside outside,
    h.heldOutside_of_reclaim_iff outside⟩

theorem isReferenced_iff_shared : EquivBEq Item ∧ LawfulHashable Item ∧
    let qs : List (Request Item ℕ) := [.insert ⟨0⟩ (.folded "a") 1, .insert ⟨1⟩ (.text "b") 2,
      .insertHandle (.text "c") ⟨1, 2⟩, .insert ⟨2⟩ (.text "d") 3]
    let m : SharedMap Item ℕ Silent := Run.after respond ⟨.create 8 ⟨⟩ .access⟩ qs
    let left := (m.reclaim [⟨0, 1⟩, ⟨1, 2⟩]).map
    (∀ k, m.isReferenced [⟨0, 1⟩, ⟨1, 2⟩] k = true ↔ ∃ e ∈ m.handles, (e.1 == k) = true ∧
      (HeldOutside [⟨0, 1⟩, ⟨1, 2⟩] e.2.cell ∨ HeldTwice m.handles e)) ∧
    (∀ e ∈ left.handles, HeldOutside [⟨0, 1⟩, ⟨1, 2⟩] e.2.cell ∨ HeldTwice left.handles e) ∧
    ((∀ k, m.isReferenced [⟨0, 1⟩, ⟨1, 2⟩] k = true ↔
      ∃ e ∈ m.handles, (e.1 == k) = true ∧ HeldOutside [⟨0, 1⟩, ⟨1, 2⟩] e.2.cell) ↔
        m.SharedOutside [⟨0, 1⟩, ⟨1, 2⟩]) ∧
    ((∀ e ∈ left.handles, HeldOutside [⟨0, 1⟩, ⟨1, 2⟩] e.2.cell) ↔
      m.SharedOutside [⟨0, 1⟩, ⟨1, 2⟩]) :=
  ⟨inferInstance, inferInstance, isReferenced_iff 8 Silent.mk .access _ _⟩

/-- Two keys share a value that nobody has outside. Both are referenced, and reclaiming leaves both. -/
theorem referenced_by_itself :
    let m : SharedMap Item ℕ Silent := Run.after respond ⟨.create 4 ⟨⟩ .access⟩
      [.insertHandle (.text "a") ⟨0, 7⟩, .insertHandle (.text "b") ⟨0, 7⟩]
    let outside : List (Handle ℕ) := []
    let left := (m.reclaim outside).map
    m.isReferenced outside (.text "a") = true ∧
    left.handles = [(.text "a", ⟨0, 7⟩), (.text "b", ⟨0, 7⟩)] ∧
    ¬ (∀ k, m.isReferenced outside k = true ↔
      ∃ e ∈ m.handles, (e.1 == k) = true ∧ HeldOutside outside e.2.cell) ∧
    ¬ (∀ e ∈ left.handles, HeldOutside outside e.2.cell) := by
  intro m outside left
  have hfirst :=
    ((BoundedMap.shows_create 4 Silent.mk .access).insert (Item.text "a") (Handle.mk 0 7)).2
  have hboth : m.bounded.Shows ⟨⟩ .access _ := (hfirst.insert (Item.text "b") (Handle.mk 0 7)).2
  have h : m.Shows ⟨⟩ .access ⟨[(.text "a", ⟨0, 7⟩), (.text "b", ⟨0, 7⟩)], 4, []⟩ := hboth
  have ha : (.text "a", ⟨0, 7⟩) ∈ m.handles := by
    rw [h.handles]
    exact List.mem_cons_self
  have hb : (.text "b", ⟨0, 7⟩) ∈ m.handles := by
    rw [h.handles]
    exact List.mem_cons_of_mem _ List.mem_cons_self
  have hshared : ¬ m.SharedOutside outside := by
    intro hs
    obtain ⟨handle, hin, -⟩ := hs _ ha ⟨_, hb, rfl, rfl⟩
    exact absurd hin List.not_mem_nil
  refine ⟨?_, (h.reclaimTo_surplus [] 0).2.handles, ?_, ?_⟩
  · exact (h.isReferenced [] _).2 ⟨_, ha, rfl, .inr ⟨_, hb, rfl, rfl⟩⟩
  · rwa [h.isReferenced_iff_heldOutside]
  · rwa [h.heldOutside_of_reclaim_iff]

end Holdall.SharedMap
