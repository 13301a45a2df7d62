import Holdall.Proofs.OrderedMap.Refinement

namespace Holdall

open Association

variable {σ K V : Type}

/-- A call of a visitor: the entry that it met, the value that it left, and whether the entry stays. -/
structure Visit (K V : Type) where
  met : K × V
  left : V
  stays : Bool

namespace Visit

def entry (c : Visit K V) : K × V := (c.met.1, c.left)

def kept (cs : List (Visit K V)) : List (K × V) := (cs.filter stays).map entry

/-- A visitor who does the same and writes down each of his calls. -/
def noted (visit : K → V → StateM σ (V × Bool)) (k : K) (v : V) :
    StateM (σ × List (Visit K V)) (V × Bool) :=
  modifyGet fun (s, cs) ↦
    let ((left, stays), s') := (visit k v).run s
    ((left, stays), s', cs ++ [⟨(k, v), left, stays⟩])

/-- Each call finds the visitor as the call before has left him. -/
inductive Follow (visit : K → V → StateM σ (V × Bool)) : σ → List (Visit K V) → σ → Prop
  | done (s : σ) : Follow visit s [] s
  | call {s s' t : σ} {c : Visit K V} {cs : List (Visit K V)} :
      (visit c.met.1 c.met.2).run s = ((c.left, c.stays), s') → Follow visit s' cs t →
      Follow visit s (c :: cs) t

variable {visit : K → V → StateM σ (V × Bool)} {k : K} {v left : V} {stays : Bool} {s s' : σ}
  {cs : List (Visit K V)}

theorem run_noted (h : (visit k v).run s = ((left, stays), s')) (cs : List (Visit K V)) :
    (noted visit k v).run (s, cs) = ((left, stays), s', cs ++ [⟨(k, v), left, stays⟩]) := by
  have hnoted : (noted visit k v).run (s, cs) =
      let (decided, s') := (visit k v).run s
      (decided, s', cs ++ [⟨(k, v), decided.1, decided.2⟩]) := rfl
  rw [hnoted, h]

/-- Sifting a list calls a visitor once for each entry, and what stays can be read off the calls. -/
theorem siftM_noted (visit : K → V → StateM σ (V × Bool)) (es : List (K × V)) (s : σ)
    (before : List (Visit K V)) : ∃ cs t, cs.map met = es ∧ Follow visit s cs t ∧
      (siftM (noted visit) es).run (s, before) = (kept cs, t, before ++ cs) := by
  induction es generalizing s before with
  | nil => exact ⟨[], s, rfl, .done s, by rw [List.append_nil]; rfl⟩
  | cons e es ih =>
    obtain ⟨k, v⟩ := e
    cases hv : (visit k v).run s with
    | mk decided s' =>
      obtain ⟨left, stays⟩ := decided
      obtain ⟨cs, t, hmet, hfollow, hrun⟩ := ih s' (before ++ [⟨(k, v), left, stays⟩])
      refine ⟨⟨(k, v), left, stays⟩ :: cs, t, congrArg ((k, v) :: ·) hmet, .call hv hfollow, ?_⟩
      rw [run_siftM_cons, run_noted hv]
      simp only [hrun, List.append_assoc, List.singleton_append]
      cases stays <;> rfl

theorem keys_kept_sublist (cs : List (Visit K V)) :
    ((kept cs).map Prod.fst).Sublist ((cs.map met).map Prod.fst) := by
  have hkeys : (kept cs).map Prod.fst = ((cs.filter stays).map met).map Prod.fst := by
    simp [kept, entry]
  rw [hkeys]
  exact (List.filter_sublist.map met).map Prod.fst

variable [BEq K]

theorem distinct_kept (hd : Distinct (cs.map met)) : Distinct (kept cs) :=
  List.Pairwise.sublist (keys_kept_sublist cs) hd

theorem value?_kept [EquivBEq K] {c : Visit K V} (hd : Distinct (cs.map met)) (hc : c ∈ cs) :
    value? (kept cs) c.met.1 = if c.stays then some c.left else none := by
  cases hs : c.stays with
  | true =>
    have hin : c.entry ∈ kept cs := List.mem_map_of_mem (List.mem_filter.2 ⟨hc, hs⟩)
    have hlookup : lookup? (kept cs) c.met.1 = some c.entry :=
      (distinct_kept hd).lookup?_eq_some.2 ⟨hin, BEq.rfl⟩
    rw [value?, hlookup]
    rfl
  | false =>
    apply value?_of_absent
    apply Bool.eq_false_iff.2
    intro hkey
    obtain ⟨e, he, hek⟩ := exists_mem_of_hasKey hkey
    obtain ⟨c', hc', rfl⟩ := List.mem_map.1 he
    obtain ⟨hin, hstays⟩ := List.mem_filter.1 hc'
    rw [hd.eq_of_beq hin hc hek, hs] at hstays
    exact absurd hstays Bool.false_ne_true

end Visit

namespace OrderedMap

open Slot

variable [BEq K] [Hashable K] {m : OrderedMap K V} {order : EntryOrder} {es : List (K × V)}

theorem run_retainAtM_noted (visit : K → V → StateM σ (V × Bool)) (ids : List Id)
    (m : OrderedMap K V) (s : σ) (cs : List (Visit K V)) :
    let noted := (m.retainAtM (Visit.noted visit) ids).run (s, cs)
    (m.retainAtM visit ids).run s = (noted.1, noted.2.1) := by
  induction ids generalizing m s cs with
  | nil => rfl
  | cons i ids ih =>
    cases hget : m.entries.get? i with
    | none =>
      rw [retainAtM, retainAtM, hget]
      exact ih m s cs
    | some e =>
      obtain ⟨k, v⟩ := e
      rw [run_retainAtM_cons hget, run_retainAtM_cons hget]
      cases hv : (visit k v).run s with
      | mk decided s' =>
        rw [Visit.run_noted hv]
        exact ih _ s' _

variable [EquivBEq K] [LawfulHashable K]

theorem Shows.retain_noted (h : m.Shows order es) (visit : K → V → StateM σ (V × Bool)) (start : σ) :
    let done := (m.retainM visit).run start
    ∃ cs, (m.retainM (Visit.noted visit)).run (start, []) = (done.1, done.2, cs) ∧
      cs.map Visit.met = es ∧ Visit.Follow visit start cs done.2 ∧
      done.1.Shows order (Visit.kept cs) := by
  intro done
  obtain ⟨cs, t, hmet, hfollow, hrun⟩ := Visit.siftM_noted visit es start []
  obtain ⟨hstate, hshows⟩ := h.retain (Visit.noted visit) (start, [])
  have hsame : done = _ := run_retainAtM_noted visit m.entries.ids m start []
  rw [← retainM] at hsame
  rw [hrun, List.nil_append] at hstate
  rw [hrun] at hshows
  rw [hstate] at hsame
  rw [hsame]
  exact ⟨cs, Prod.ext rfl hstate, hmet, hfollow, hshows⟩

/-- A visit calls the visitor once for each entry, from the eldest to the newest. The entries that are
to stay are there in the order they had, with the values that were left, and no other key is found;
none has moved, in whichever order the entries stand. -/
theorem retain_visits_once (order : EntryOrder) (rs : List (Request K V))
    (visit : K → V → StateM σ (V × Bool)) (start : σ) :
    let m : OrderedMap K V := Run.after respond (empty order) rs
    let done := (m.retainM visit).run start
    ∃ cs : List (Visit K V),
      (m.retainM (Visit.noted visit)).run (start, []) = (done.1, done.2, cs) ∧
      cs.map Visit.met = m.toList ∧ Visit.Follow visit start cs done.2 ∧
      done.1.order = order ∧ done.1.toList = Visit.kept cs ∧ done.1.cursor.Yields (Visit.kept cs) ∧
      ((Visit.kept cs).map Prod.fst).Sublist (m.toList.map Prod.fst) ∧
      (∀ k, done.1.peek? k = value? (Visit.kept cs) k ∧
        done.1.contains k = hasKey (Visit.kept cs) k) ∧
      ∀ c ∈ cs, done.1.peek? c.met.1 = if c.stays then some c.left else none := by
  intro m done
  have hm : m.Shows order _ := (shows_empty order).after rs
  obtain ⟨cs, hrun, hmet, hfollow, hdone⟩ := hm.retain_noted visit start
  have hd : Distinct (cs.map Visit.met) := by
    rw [hmet]
    exact hm.distinct
  rw [← hm.toList] at hmet
  refine ⟨cs, hrun, hmet, hfollow, hdone.order_eq, hdone.toList, hdone.cursor_yields, ?_, ?_, ?_⟩
  · rw [← hmet]
    exact Visit.keys_kept_sublist cs
  · intro k
    exact ⟨hdone.peek? k, hdone.contains k⟩
  · intro c hc
    rw [← Visit.value?_kept hd hc]
    exact hdone.peek? c.met.1

theorem retain_visits_once_counted : EquivBEq Item ∧ LawfulHashable Item ∧
    let m : OrderedMap Item ℕ := Run.after respond (empty .access)
      [.insert (.folded "a") 1, .insert (.text "b") 2, .insert (.folded "A") 3, .insert (.text "c") 4,
        .remove (.text "b"), .insert (.text "d") 5]
    let visit : Item → ℕ → StateM ℕ (ℕ × Bool) := fun _ v n ↦ ((v + n, n % 2 == 0), n + 1)
    let done := (m.retainM visit).run 0
    ∃ cs, (m.retainM (Visit.noted visit)).run (0, []) = (done.1, done.2, cs) ∧
      cs.map Visit.met = [(.folded "a", 3), (.text "c", 4), (.text "d", 5)] ∧
      Visit.Follow visit 0 cs done.2 ∧ done.1.toList = Visit.kept cs := by
  refine ⟨inferInstance, inferInstance, ?_⟩
  intro m visit done
  obtain ⟨cs, hrun, hmet, hfollow, -, hkept, -⟩ := retain_visits_once .access _ visit 0
  have hm : m.toList = _ := ((shows_empty .access).after _).toList
  exact ⟨cs, hrun, hmet.trans hm, hfollow, hkept⟩

end OrderedMap

end Holdall
