import Holdall.Item.Basic
import Holdall.Proofs.SharedMap.Tally

namespace Holdall

open Association

variable {K V L : Type} [BEq K]

namespace Association

variable [EquivBEq K] {s gone : List (K × V)}

theorem foldl_without (s gone : List (K × V)) :
    (gone.map Prod.fst).foldl without s = s.filter fun e ↦ !hasKey gone e.1 := by
  induction gone generalizing s with
  | nil => simp [hasKey]
  | cons g gone ih =>
    rw [List.map_cons, List.foldl_cons, ih, without, List.filter_filter]
    refine List.filter_congr ?_
    intro e _
    have hcons : hasKey (g :: gone) e.1 = (g.1 == e.1 || hasKey gone e.1) := rfl
    rw [hcons, Bool.not_or, BEq.comm (a := g.1), Bool.and_comm]

theorem Distinct.taken_keys (hd : Distinct s) (hs : gone.Sublist s) :
    taken s (gone.map Prod.fst) = gone := by
  induction gone generalizing s with
  | nil => rfl
  | cons g gone ih =>
    have hg : lookup? s g.1 = some g := hd.lookup?_eq_some.2 ⟨hs.subset List.mem_cons_self, BEq.rfl⟩
    have habsent : hasKey gone g.1 = false :=
      ((hd.sublist hs).around (l := []) BEq.rfl).2
    have hrest : gone.Sublist (Association.without s g.1) := by
      have hsub := ((List.sublist_cons_self g gone).trans hs).filter fun e ↦ !(e.1 == g.1)
      rwa [← Association.without, without_of_absent habsent] at hsub
    rw [List.map_cons, taken, hg, ih (hd.without g.1) hrest]
    rfl

theorem Distinct.mem_of_hasKey {e : K × V} (hd : Distinct s) (hs : gone.Sublist s) (he : e ∈ s)
    (hk : hasKey gone e.1 = true) : e ∈ gone := by
  obtain ⟨g, hg, hkey⟩ := exists_mem_of_hasKey hk
  rwa [← hd.eq_of_mem (hs.subset hg) he hkey]

theorem Distinct.length_stays (hd : Distinct s) (hs : gone.Sublist s) :
    s.length = gone.length + (s.filter fun e ↦ !hasKey gone e.1).length := by
  have hlen := (hd.perm_taken (gone.map Prod.fst)).length_eq
  rwa [hd.taken_keys hs, foldl_without, List.length_append] at hlen

end Association

namespace SharedMap

open BoundedMap (hearing hearing_append)

variable {es gone : List (K × Handle V)} {outside : List (Handle V)} {e : K × Handle V} {target : ℕ}

def holdersIn (es : List (K × Handle V)) (outside : List (Handle V)) (cell : ℕ) : ℕ :=
  es.countP (·.2.cell == cell) + outside.countP (·.cell == cell)

def HeldOutside (outside : List (Handle V)) (cell : ℕ) : Prop := ∃ h ∈ outside, h.cell = cell

/-- An entry with another key has a handle on the same cell. -/
def HeldTwice (es : List (K × Handle V)) (e : K × Handle V) : Prop :=
  ∃ e' ∈ es, (e'.1 == e.1) = false ∧ e'.2.cell = e.2.cell

omit [BEq K] in
theorem holdersIn_pos (outside : List (Handle V)) (he : e ∈ es) : 0 < holdersIn es outside e.2.cell := by
  have hin : 0 < es.countP (·.2.cell == e.2.cell) := List.countP_pos_iff.2 ⟨e, he, by simp⟩
  exact Nat.add_pos_left hin _

theorem one_lt_holdersIn [EquivBEq K] (hd : Distinct es) (outside : List (Handle V)) (he : e ∈ es) :
    1 < holdersIn es outside e.2.cell ↔ HeldOutside outside e.2.cell ∨ HeldTwice es e := by
  obtain ⟨l, r, rfl⟩ := List.append_of_mem he
  obtain ⟨hl, hr⟩ := hd.around (k := e.1) BEq.rfl
  have hothers : hasKey (l ++ r) e.1 = false := by
    rw [hasKey_append, hl, hr]
    rfl
  have hsum : holdersIn (l ++ e :: r) outside e.2.cell =
      (l ++ r).countP (·.2.cell == e.2.cell) + outside.countP (·.cell == e.2.cell) + 1 := by
    simp only [holdersIn, List.countP_append, List.countP_cons, beq_self_eq_true, if_true]
    omega
  have houtside : HeldOutside outside e.2.cell ↔ 0 < outside.countP (·.cell == e.2.cell) := by
    simp [HeldOutside, List.countP_pos_iff]
  have htwice : HeldTwice (l ++ e :: r) e ↔ 0 < (l ++ r).countP (·.2.cell == e.2.cell) := by
    rw [List.countP_pos_iff]
    constructor
    · rintro ⟨e', he', hkey, hcell⟩
      have hne : e' ≠ e := by
        rintro rfl
        simp at hkey
      exact ⟨e', by simpa [hne] using he', by simpa using hcell⟩
    · rintro ⟨e', he', hcell⟩
      have hkey : (e'.1 == e.1) = false := by simpa using List.any_eq_false.1 hothers e' he'
      have hsub : (l ++ r).Sublist (l ++ e :: r) := by simp
      exact ⟨e', hsub.subset he', hkey, by simpa using hcell⟩
  rw [hsum, houtside, htwice]
  omega

variable [EquivBEq K]

/-- An entry that leaves has a cell for itself, so those that stay keep all their handles. -/
theorem holdersIn_of_stays (hd : Distinct es) (hgone : gone.Sublist es)
    (hlone : ∀ g ∈ gone, holdersIn es outside g.2.cell = 1)
    (he : e ∈ es.filter fun e ↦ !hasKey gone e.1) :
    holdersIn (es.filter fun e ↦ !hasKey gone e.1) outside e.2.cell =
      holdersIn es outside e.2.cell := by
  obtain ⟨hes, hstays⟩ := List.mem_filter.1 he
  rw [holdersIn, holdersIn, List.countP_filter, List.countP_congr]
  intro f hf
  rw [Bool.and_eq_true, and_iff_left_iff_imp]
  intro hcell
  rw [Bool.not_eq_true', ← Bool.not_eq_true]
  intro hin
  -- an entry on the cell of `e` that leaves would have to be `e` itself
  have hg := hd.mem_of_hasKey hgone hf hin
  have hone := hlone f hg
  have htwice : ¬ HeldTwice es f := by
    intro hc
    have hmore := (one_lt_holdersIn hd outside hf).2 (.inr hc)
    omega
  have hsame : (e.1 == f.1) = true := by
    rw [← Bool.not_eq_false]
    intro hc
    exact htwice ⟨e, hes, hc, (eq_of_beq hcell).symm⟩
  have hek : hasKey gone e.1 = true := List.any_eq_true.2 ⟨f, hg, BEq.symm hsame⟩
  rw [hek] at hstays
  exact Bool.false_ne_true hstays

def loneIn (es : List (K × Handle V)) (outside : List (Handle V)) : List (K × Handle V) :=
  es.filter fun e ↦ holdersIn es outside e.2.cell == 1

/-- The eldest of the lone entries, as many as exceed the target. -/
def surplus (es : List (K × Handle V)) (outside : List (Handle V)) (target : ℕ) :
    List (K × Handle V) :=
  (loneIn es outside).take (es.length - target)

omit [BEq K] [EquivBEq K] in
theorem surplus_sublist (es : List (K × Handle V)) (outside : List (Handle V)) (target : ℕ) :
    (surplus es outside target).Sublist es := (List.take_sublist _ _).trans List.filter_sublist

omit [BEq K] [EquivBEq K] in
theorem surplus_zero (es : List (K × Handle V)) (outside : List (Handle V)) :
    surplus es outside 0 = loneIn es outside := List.take_of_length_le (List.length_filter_le _ _)

omit [BEq K] [EquivBEq K] in
theorem holdersIn_of_surplus (he : e ∈ surplus es outside target) :
    holdersIn es outside e.2.cell = 1 := by
  have hlone := (List.mem_filter.1 (List.mem_of_mem_take he)).2
  simpa using hlone

/-- Once the surplus is gone, the target is met or nobody is alone any more. -/
theorem surplus_stays (hd : Distinct es) (outside : List (Handle V)) (target : ℕ) :
    surplus (es.filter fun e ↦ !hasKey (surplus es outside target) e.1) outside target = [] := by
  have hsub := surplus_sublist es outside target
  have hlen := hd.length_stays hsub
  rcases Nat.lt_or_ge (es.length - target) (loneIn es outside).length with hmany | hfew
  · have hgone : (surplus es outside target).length = es.length - target :=
      List.length_take_of_le (Nat.le_of_lt hmany)
    have hmet : (es.filter fun e ↦ !hasKey (surplus es outside target) e.1).length - target = 0 := by
      omega
    rw [surplus, hmet, List.take_zero]
  · have hall : surplus es outside target = loneIn es outside := List.take_of_length_le hfew
    have hnone : loneIn (es.filter fun e ↦ !hasKey (surplus es outside target) e.1) outside = [] := by
      refine List.filter_eq_nil_iff.2 ?_
      intro e he hone
      rw [holdersIn_of_stays hd hsub (fun _ ↦ holdersIn_of_surplus) he] at hone
      obtain ⟨hes, hkey⟩ := List.mem_filter.1 he
      have hin : e ∈ surplus es outside target := by
        rw [hall]
        exact List.mem_filter.2 ⟨hes, hone⟩
      have hek : hasKey (surplus es outside target) e.1 = true := List.any_eq_true.2 ⟨e, hin, BEq.rfl⟩
      rw [hek] at hkey
      exact Bool.false_ne_true hkey
    rw [surplus, hnone, List.take_nil]

variable [Hashable K] [LawfulHashable K] [Listener L K (Handle V)] {m : SharedMap K V L} {start : L}
  {order : EntryOrder} {b : BoundedList K (Handle V)}

omit [EquivBEq K] [LawfulHashable K] in
theorem reclaimTo_of_none (h : m.reclaimable outside target = []) :
    m.reclaimTo outside target = ⟨0, m, []⟩ := by
  rw [SharedMap.reclaimTo, h]
  split <;> rfl

omit [BEq K] [EquivBEq K] [Hashable K] in
theorem reclaimable_eq (b : BoundedList K (Handle V)) (outside : List (Handle V)) (target : ℕ) :
    b.reclaimable outside target = (surplus b.entries outside target).map Prod.fst :=
  (List.map_take ..).symm

namespace Shows

omit [EquivBEq K] [LawfulHashable K] in
theorem handles (h : m.Shows start order b) : m.handles = b.entries := h.toList

theorem reclaimTo_surplus (h : m.Shows start order b) (outside : List (Handle V)) (target : ℕ) :
    (m.reclaimTo outside target).count = (surplus b.entries outside target).length ∧
      (m.reclaimTo outside target).map.Shows start order
        ⟨b.entries.filter fun e ↦ !hasKey (surplus b.entries outside target) e.1, b.maxSize,
          b.dropped ++ surplus b.entries outside target⟩ := by
  obtain ⟨hcount, hmap⟩ := h.reclaimTo outside target
  have htaken := h.entries.distinct.taken_keys (surplus_sublist b.entries outside target)
  rw [BoundedList.dropKeys, reclaimable_eq, foldl_without, htaken] at hmap
  rw [reclaimable_eq, htaken] at hcount
  exact ⟨hcount, hmap⟩

theorem stays (h : m.Shows start order b) {e : K × Handle V} (he : e ∈ m.handles)
    (hmore : 1 < m.holders outside e.2.cell) : e ∈ (m.reclaimTo outside target).map.handles := by
  change 1 < holdersIn m.handles outside e.2.cell at hmore
  rw [h.handles] at he hmore
  rw [(h.reclaimTo_surplus outside target).2.handles]
  refine List.mem_filter.2 ⟨he, ?_⟩
  rw [Bool.not_eq_true', ← Bool.not_eq_true]
  intro hin
  have hone := holdersIn_of_surplus
    (h.entries.distinct.mem_of_hasKey (surplus_sublist b.entries outside target) he hin)
  omega

theorem reclaimTo_again (h : m.Shows start order b) (outside : List (Handle V)) (target : ℕ) :
    let left := (m.reclaimTo outside target).map
    left.reclaimTo outside target = ⟨0, left, []⟩ := by
  intro left
  refine reclaimTo_of_none ?_
  rw [(h.reclaimTo_surplus outside target).2.reclaimable, reclaimable_eq,
    surplus_stays h.entries.distinct, List.map_nil]

theorem stats_reclaimTo (h : m.Shows start order b) (outside : List (Handle V)) (target : ℕ) :
    let r := m.reclaimTo outside target
    r.map.stats =
      { m.stats with evictions := m.stats.evictions + r.count, size := m.size - r.count } := by
  intro r
  obtain ⟨hcount, hmap⟩ := h.reclaimTo_surplus outside target
  have htally : r.map.tally = m.tally.evict r.count := by
    obtain ⟨hdropped, hrest⟩ := reclaimTo_eq m outside target
    rw [hdropped, hrest]
    exact tally_dropKeys m _
  have hsize : r.map.size = m.size - r.count := by
    have hlen := h.entries.distinct.length_stays (surplus_sublist b.entries outside target)
    have hbefore : m.size = b.entries.length := h.size
    have hcount : r.count = (surplus b.entries outside target).length := hcount
    have hafter : r.map.size = (b.entries.filter fun e ↦
      !hasKey (surplus b.entries outside target) e.1).length := hmap.size
    omega
  have hmax : r.map.maxSize = m.maxSize := hmap.maxSize.trans h.maxSize.symm
  change (⟨r.map.tally, r.map.size, r.map.maxSize⟩ : Stats) = _
  rw [htally, hsize, hmax]
  rfl

end Shows

theorem shows_after (maxSize : ℕ) (start : L) (order : EntryOrder) (qs : List (Request K V)) :
    ∃ b, Shows (Run.after respond (⟨.create maxSize start order⟩ : SharedMap K V L) qs) start order b :=
  Run.after_induction (P := fun m ↦ ∃ b, Shows m start order b) (fun _ r ⟨_, h⟩ ↦ (h.respond r).1)
    ⟨_, BoundedMap.shows_create maxSize start order⟩ qs

/-- Of the entries whose handle is the only one on its cell, reclaiming drops the eldest until the
target is met or none is left. The listener hears of them in their order, they count as evicted, and the
others stay as they are. Nothing is left to do for a second reclaiming. -/
theorem reclaimTo_exact (maxSize : ℕ) (start : L) (order : EntryOrder) (qs : List (Request K V))
    (outside : List (Handle V)) (target : ℕ) :
    let m : SharedMap K V L := Run.after respond ⟨.create maxSize start order⟩ qs
    let r := m.reclaimTo outside target
    let held (e : K × Handle V) : ℕ :=
      m.handles.countP (·.2.cell == e.2.cell) + outside.countP (·.cell == e.2.cell)
    let lone := m.handles.filter (held · == 1)
    let n := min lone.length (m.size - target)
    r.count = n ∧
      r.map.handles = m.handles.filter (fun e ↦ !hasKey (lone.take n) e.1) ∧
      (∀ e ∈ m.handles, 1 < held e → e ∈ r.map.handles) ∧
      r.map.listener = hearing m.listener (lone.take n) ∧
      r.map.stats = { m.stats with evictions := m.stats.evictions + n, size := m.size - n } ∧
      r.map.reclaimTo outside target = ⟨0, r.map, []⟩ := by
  intro m r held lone n
  obtain ⟨b, h⟩ := shows_after maxSize start order qs
  have hlone : lone = loneIn b.entries outside := by
    change loneIn m.handles outside = _
    rw [h.handles]
  have hgone : lone.take n = surplus b.entries outside target := by
    have hsize : m.size = b.entries.length := h.size
    rw [surplus, ← hlone, ← hsize, List.take_eq_take_iff]
    omega
  obtain ⟨hcount, hmap⟩ := h.reclaimTo_surplus outside target
  have hn : r.count = n := by
    rw [hcount, ← hgone, List.length_take, Nat.min_eq_left]
    exact Nat.min_le_left _ _
  have hrest : r.map.handles = m.handles.filter fun e ↦ !hasKey (lone.take n) e.1 := by
    rw [hgone, h.handles]
    exact hmap.handles
  refine ⟨hn, hrest, fun e ↦ h.stays, ?_, ?_, h.reclaimTo_again outside target⟩
  · rw [hgone]
    exact hmap.listener.trans ((hearing_append _ _ _).trans (congrArg (hearing · _) h.listener.symm))
  · rw [← hn]
    exact h.stats_reclaimTo outside target

theorem reclaimTo_exact_shared : EquivBEq Item ∧ LawfulHashable Item ∧
    let qs : List (Request Item ℕ) := [.insert ⟨0⟩ (.folded "a") 1, .insert ⟨1⟩ (.text "b") 2,
      .insert ⟨2⟩ (.text "c") 3, .insert ⟨3⟩ (.text "d") 4, .insertHandle (.text "e") ⟨2, 3⟩,
      .get (.folded "A")]
    let m : SharedMap Item ℕ (Recorder Item (Handle ℕ)) :=
      Run.after respond ⟨.create 8 ⟨[]⟩ .access⟩ qs
    let outside : List (Handle ℕ) := [⟨1, 2⟩]
    let r := m.reclaimTo outside 2
    let held (e : Item × Handle ℕ) : ℕ :=
      m.handles.countP (·.2.cell == e.2.cell) + outside.countP (·.cell == e.2.cell)
    let lone := m.handles.filter (held · == 1)
    let n := min lone.length (m.size - 2)
    r.count = n ∧
      r.map.handles = m.handles.filter (fun e ↦ !hasKey (lone.take n) e.1) ∧
      (∀ e ∈ m.handles, 1 < held e → e ∈ r.map.handles) ∧
      r.map.listener = hearing m.listener (lone.take n) ∧
      r.map.stats = { m.stats with evictions := m.stats.evictions + n, size := m.size - n } ∧
      r.map.reclaimTo outside 2 = ⟨0, r.map, []⟩ :=
  ⟨inferInstance, inferInstance, reclaimTo_exact 8 (Recorder.mk []) .access _ _ 2⟩

end SharedMap

end Holdall
