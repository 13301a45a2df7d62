import Holdall.Proofs.BoundedMap.Overflow
import Holdall.Proofs.Stamp
import Mathlib.Data.List.Induction

namespace Holdall

open Association

variable {K V L : Type} [BEq K]

theorem Association.Distinct.inOrder_toEnd {C : Type} {mark : K → C → Bool} {cs : List C} {c : C}
    {s : List (K × V)} {k : K} [EquivBEq K] (hd : Distinct s)
    (h : Run.InOrder mark cs (s.map Prod.fst)) (hk : hasKey s k = true)
    (hmark : ∀ k', mark k' c = (k' == k)) :
    Run.InOrder mark (cs ++ [c]) ((Association.toEnd s k).map Prod.fst) := by
  obtain ⟨e, he, hek⟩ := exists_mem_of_hasKey hk
  obtain ⟨l, r, rfl⟩ := List.append_of_mem he
  obtain ⟨hl, hr⟩ := hd.around hek
  have hothers : ∀ k' ∈ (l ++ r).map Prod.fst, mark k' c = false := by
    intro k' hk'
    obtain ⟨e', he', rfl⟩ := List.mem_map.1 hk'
    have hlr : hasKey (l ++ r) k = false := by rw [hasKey_append, hl, hr]; rfl
    rw [hmark]
    simpa using List.any_eq_false.1 hlr e' he'
  have hsub : ((l ++ r).map Prod.fst).Sublist ((l ++ e :: r).map Prod.fst) :=
    List.Sublist.map Prod.fst (by simp)
  rw [hd.toEnd_split hek, List.map_append, List.map_singleton]
  exact (h.sublist hsub).push hothers ((hmark e.1).trans hek)

namespace BoundedMap

variable [Hashable K]

def uses (k : K) (c : Call K V L) : Bool :=
  match c.request, c.answer with
  | .insert j _, _ => k == j
  | .get j, .value v | .modify j _, .value v => k == j && v.isSome
  | .touch j, .flag found => k == j && found
  | _, _ => false

def enters (k : K) (c : Call K V L) : Bool :=
  match c.request, c.answer with
  | .insert j _, .value v => k == j && v.isNone
  | _, _ => false

def marks (order : EntryOrder) (k : K) (c : Call K V L) : Bool :=
  match order with
  | .insertion => enters k c
  | .access => uses k c

end BoundedMap

namespace BoundedList

open BoundedMap
open Run (InOrder)

variable [Hashable K] [EquivBEq K] {b : BoundedList K V} {order : EntryOrder} {s : List (K × V)}
  {cs : List (Call K V L)} {c : Call K V L} {k : K}

/-- A use that finds its key marks it in order of access, and no other key in either order. -/
theorem inOrder_use (hd : Distinct s) (h : InOrder (marks order) cs (s.map Prod.fst))
    (huses : ∀ k', uses k' c = (k' == k && hasKey s k)) (henters : ∀ k', enters k' c = false) :
    InOrder (marks order) (cs ++ [c]) ((use order s k).map Prod.fst) := by
  cases order with
  | insertion => exact h.keep fun k' _ ↦ henters k'
  | access =>
    cases hk : hasKey s k with
    | false =>
      rw [use_of_absent .access hk]
      refine h.keep fun k' _ ↦ (huses k').trans ?_
      rw [hk, Bool.and_false]
    | true =>
      refine hd.inOrder_toEnd h hk fun k' ↦ (huses k').trans ?_
      rw [hk, Bool.and_true]

theorem inOrder_filled (hd : Distinct b.entries)
    (h : InOrder (marks order) cs (b.entries.map Prod.fst)) (m : BoundedMap K V L) (r : Request K V) :
    InOrder (marks order) (cs ++ [⟨m, r, (b.respond order r).1⟩]) ((b.filled order r).map Prod.fst) := by
  have hidle : ∀ c : Call K V L, (∀ k, uses k c = false) → (∀ k, enters k c = false) →
      InOrder (marks order) (cs ++ [c]) (b.entries.map Prod.fst) := by
    intro c huses henters
    refine h.keep fun k _ ↦ ?_
    cases order with
    | insertion => exact henters k
    | access => exact huses k
  cases r with
  | insert k v =>
    rw [filled, Association.insert]
    cases hk : hasKey b.entries k with
    | true =>
      have hkey : hasKey (alter b.entries k fun _ ↦ v) k = true := by
        rw [hasKey_eq_of_keys (keys_alter _ k _), hk]
      refine inOrder_use (hd.alter k _) (by rwa [keys_alter]) ?_ ?_
      · intro k'
        rw [hkey, Bool.and_true]
        rfl
      · intro k'
        have hsome : (value? b.entries k).isNone = false := by
          rw [← Option.not_isSome, isSome_value?, hk]
          rfl
        simp [enters, respond, hsome]
    | false =>
      have hothers : ∀ k' ∈ b.entries.map Prod.fst, (k' == k) = false := by
        intro k' hk'
        obtain ⟨e, he, rfl⟩ := List.mem_map.1 hk'
        simpa using List.any_eq_false.1 hk e he
      rw [if_neg Bool.false_ne_true, List.map_append, List.map_singleton]
      refine h.push ?_ ?_
      · intro k' hk'
        cases order <;> simp [marks, uses, enters, hothers k' hk', respond]
      · cases order <;> simp [marks, uses, enters, respond, value?_of_absent hk]
  | get k => exact inOrder_use hd h (fun k' ↦ by simp [uses, respond, isSome_value?]) fun _ ↦ rfl
  | modify k f =>
    rw [filled, keys_alter]
    exact inOrder_use hd h (fun k' ↦ by simp [uses, respond, isSome_value?]) fun _ ↦ rfl
  | touch k => exact inOrder_use hd h (fun _ ↦ rfl) fun _ ↦ rfl
  | remove k =>
    exact (hidle _ (fun _ ↦ rfl) fun _ ↦ rfl).sublist ((without_sublist _ k).map Prod.fst)
  | popEldest =>
    exact (hidle _ (fun _ ↦ rfl) fun _ ↦ rfl).sublist ((List.tail_sublist _).map Prod.fst)
  | clear => exact (hidle _ (fun _ ↦ rfl) fun _ ↦ rfl).sublist (List.nil_sublist _)
  | setMaxSize n => cases n <;> exact hidle _ (fun _ ↦ rfl) fun _ ↦ rfl
  | peek k | contains k | resetStats => exact hidle _ (fun _ ↦ rfl) fun _ ↦ rfl

/-- Two lists with the same keys in the same order and the same bound, whatever their values. -/
structure Alike (b b' : BoundedList K V) : Prop where
  keys : b.entries.map Prod.fst = b'.entries.map Prod.fst
  maxSize : b.maxSize = b'.maxSize

namespace Alike

variable {b' : BoundedList K V}

omit [Hashable K] [EquivBEq K]

theorem keys_filled (h : b.Alike b') (r : Request K V) :
    (b.filled .insertion r).map Prod.fst = (b'.filled .insertion r).map Prod.fst := by
  cases r with
  | insert k v =>
    simp only [filled, Association.insert, use]
    rw [hasKey_eq_of_keys h.keys]
    split
    · rw [keys_alter, keys_alter, h.keys]
    · rw [List.map_append, List.map_append, h.keys]
  | modify k f =>
    rw [filled, filled, keys_alter, keys_alter]
    exact h.keys
  | remove k => rw [filled, filled, keys_without, keys_without, h.keys]
  | popEldest => rw [filled, filled, List.map_tail, List.map_tail, h.keys]
  | clear => rfl
  | get k | touch k | peek k | contains k | setMaxSize n | resetStats => exact h.keys

theorem keys_overflow (h : b.Alike b') (r : Request K V) :
    (b.overflow .insertion r).map Prod.fst = (b'.overflow .insertion r).map Prod.fst := by
  cases r with
  | insert k v =>
    have hkeys := h.keys_filled (.insert k v)
    have hlen := congrArg List.length hkeys
    rw [List.length_map, List.length_map] at hlen
    simp only [filled] at hkeys hlen
    rw [overflow_insert, overflow_insert, List.map_take, List.map_take, hkeys, hlen, h.maxSize]
  | setMaxSize n =>
    have hlen := congrArg List.length h.keys
    rw [List.length_map, List.length_map] at hlen
    cases n with
    | zero => rfl
    | succ n =>
      rw [overflow_setMaxSize, overflow_setMaxSize, List.map_take, List.map_take, h.keys, hlen]
  | _ => rfl

theorem respond (h : b.Alike b') (r : Request K V) :
    (b.respond .insertion r).2.Alike (b'.respond .insertion r).2 := by
  constructor
  · have hsplit := h.keys_filled r
    rw [← overflow_append, ← overflow_append, List.map_append, List.map_append,
      h.keys_overflow r] at hsplit
    exact List.append_cancel_left hsplit
  · cases r with
    | setMaxSize n =>
      cases n with
      | zero => exact h.maxSize
      | succ n => rfl
    | _ => exact h.maxSize

end Alike

end BoundedList

namespace BoundedMap

open Run (InOrder)

variable [Hashable K] [Listener L K V] {m m' : BoundedMap K V L} {start start' : L}
  {order : EntryOrder} {b b' : BoundedList K V}

/-- A read, or a new value for a key that is there. -/
def KeepsKeys (m : BoundedMap K V L) : Request K V → Prop
  | .insert k _ => m.contains k = true
  | .get _ | .modify _ _ | .peek _ | .contains _ | .touch _ => True
  | .remove _ | .popEldest | .setMaxSize _ | .clear | .resetStats => False

/-- The keys that each of the requests makes the map drop. -/
def droppedKeys (m : BoundedMap K V L) (rs : List (Request K V)) : List (List K) :=
  (Run.calls respond m rs).map fun c ↦ (c.met.reported c.request).map Prod.fst

variable [EquivBEq K] [LawfulHashable K]

namespace Shows

theorem inOrder_brimming (h : m.Shows start order b) {cs : List (Call K V L)}
    (hcs : InOrder (marks order) cs (m.toList.map Prod.fst)) (r : Request K V) :
    InOrder (marks order) (cs ++ [Run.call BoundedMap.respond m r])
      ((m.brimming r).map Prod.fst) := by
  rw [h.toList] at hcs
  rw [h.brimming, Run.call, (h.respond r).1]
  exact BoundedList.inOrder_filled h.entries.distinct hcs m r

theorem droppedKeys (h : m.Shows start .insertion b) (h' : m'.Shows start' .insertion b')
    (hb : b.Alike b') (rs : List (Request K V)) : m.droppedKeys rs = m'.droppedKeys rs := by
  induction rs generalizing m m' b b' with
  | nil => rfl
  | cons r rs ih =>
    have hfirst : (m.reported r).map Prod.fst = (m'.reported r).map Prod.fst := by
      rw [h.reported, h'.reported, hb.keys_overflow]
    exact congrArg₂ List.cons hfirst (ih (h.respond r).2 (h'.respond r).2 (hb.respond r))

theorem alike_of_keepsKeys (h : m.Shows start .insertion b) (hfits : b.Fits) {r : Request K V}
    (hr : m.KeepsKeys r) :
    b.overflow .insertion r = [] ∧ b.Alike (b.respond .insertion r).2 := by
  cases r with
  | insert k v =>
    have hk : hasKey b.entries k = true := (h.contains k).symm.trans hr
    have hnone : b.overflow .insertion (.insert k v) = [] := by
      have hroom : b.entries.length - b.maxSize = 0 := Nat.sub_eq_zero_of_le hfits
      rw [BoundedList.overflow_insert, length_insert, if_pos hk, hroom, List.take_zero]
    refine ⟨hnone, ?_, rfl⟩
    have hsplit := BoundedList.overflow_append .insertion b (.insert k v)
    rw [hnone, List.nil_append] at hsplit
    rw [hsplit, BoundedList.filled, Association.insert, if_pos hk, use, keys_alter]
  | modify k f => exact ⟨rfl, (keys_alter _ k f).symm, rfl⟩
  | get k | peek k | contains k | touch k => exact ⟨rfl, rfl, rfl⟩
  | remove k | popEldest | setMaxSize n | clear | resetStats => exact hr.elim

end Shows

theorem inOrder_after (maxSize : ℕ) (start : L) (order : EntryOrder) (rs : List (Request K V)) :
    InOrder (marks order) (Run.calls respond (create maxSize start order) rs)
      ((Run.after respond (create maxSize start order : BoundedMap K V L) rs).toList.map Prod.fst) := by
  have hempty : (create maxSize start order : BoundedMap K V L).Shows start order { maxSize } :=
    shows_create maxSize start order
  induction rs using List.reverseRecOn with
  | nil =>
    refine ⟨fun _ ↦ 0, ?_, ?_⟩ <;> simp [Run.after, hempty.toList]
  | append_singleton rs r ih =>
    have h := hempty.after rs
    have hlast := h.inOrder_brimming ih r
    rw [← h.reported_append, List.map_append] at hlast
    rw [Run.calls_append, Run.after_append]
    exact hlast.sublist (List.sublist_append_right _ _)

/-- Whatever a run has led to, the entries stand in the order of the calls that marked their keys last,
and what a request makes the map drop are the first of them. In order of insertion only new keys are
marked, and neither reads nor new values for old keys change what the map drops, now or later. -/
theorem drops_oldest (maxSize : ℕ) (start : L) (order : EntryOrder) (rs : List (Request K V))
    (r : Request K V) :
    let m : BoundedMap K V L := Run.after respond (create maxSize start order) rs
    let m' := (m.respond r).2
    InOrder (marks order) (Run.calls respond (create maxSize start order : BoundedMap K V L) (rs ++ [r]))
        ((m.reported r ++ m'.toList).map Prod.fst) ∧
      m'.cursor.Yields m'.toList ∧
      m.reported r ++ m'.toList = m.brimming r ∧
      m'.listener = hearing m.listener (m.reported r) ∧
      (order = .insertion → m.KeepsKeys r →
        m.reported r = [] ∧ ∀ rs', m'.droppedKeys rs' = m.droppedKeys rs') := by
  intro m m'
  have hempty : (create maxSize start order : BoundedMap K V L).Shows start order { maxSize } :=
    shows_create maxSize start order
  have h := hempty.after rs
  have hyields : m'.cursor.Yields m'.toList := by
    rw [(h.respond r).2.toList]
    exact (h.respond r).2.entries.cursor_yields
  refine ⟨?_, hyields, h.reported_append r, h.listener_respond r, ?_⟩
  · rw [Run.calls_append, h.reported_append]
    exact h.inOrder_brimming (inOrder_after maxSize start order rs) r
  · rintro rfl hr
    have hfits : BoundedList.Fits (⟨[], maxSize, []⟩ : BoundedList K V) := Nat.zero_le maxSize
    obtain ⟨hnone, hb⟩ := h.alike_of_keepsKeys (BoundedList.fits_after .insertion hfits rs) hr
    refine ⟨(h.reported r).trans hnone, ?_⟩
    intro rs'
    exact (h.droppedKeys (h.respond r).2 hb rs').symm

theorem drops_oldest_folded : EquivBEq Item ∧ LawfulHashable Item ∧
    let m : BoundedMap Item ℕ (Recorder Item ℕ) := Run.after respond (create 2 ⟨[]⟩ .insertion)
      [.insert (.folded "a") 1, .insert (.text "b") 2]
    m.KeepsKeys (.insert (.folded "A") 3) ∧ m.reported (.insert (.folded "A") 3) = [] ∧
      ∀ rs', (m.respond (.insert (.folded "A") 3)).2.droppedKeys rs' = m.droppedKeys rs' := by
  refine ⟨inferInstance, inferInstance, ?_⟩
  intro m
  have hkeeps : m.KeepsKeys (.insert (.folded "A") 3) := by
    have h := (shows_create 2 (⟨[]⟩ : Recorder Item ℕ) .insertion).after
      [.insert (Item.folded "a") 1, .insert (Item.text "b") 2]
    exact (h.contains (.folded "A")).trans (by decide)
  exact ⟨hkeeps, (drops_oldest 2 (Recorder.mk []) .insertion _ _).2.2.2.2 rfl hkeeps⟩

end BoundedMap

end Holdall
