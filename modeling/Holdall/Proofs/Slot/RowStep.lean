import Holdall.Proofs.Slot.Audit
import Holdall.Proofs.Slot.Cursor

namespace Holdall.Slot

open Association

variable {α : Type} {s s' : List (Id × α)} {id : Id} {x : α} {r : Chain.Request α}
  {a : Chain.Answer α}

/-- What may happen to a row. The id of a new value is free, except that the row must not have it. -/
inductive RowStep : List (Id × α) → Chain.Request α → Chain.Answer α → List (Id × α) → Prop
  | pushBack {s : List (Id × α)} {id : Id} (x : α) :
      id ∉ s.map Prod.fst → RowStep s (.pushBack x) (.id id) (s ++ [(id, x)])
  | remove (l r : List (Id × α)) (id : Id) (x : α) :
      RowStep (l ++ (id, x) :: r) (.remove id) (.value (some x)) (l ++ r)
  | removeAbsent {s : List (Id × α)} {id : Id} :
      id ∉ s.map Prod.fst → RowStep s (.remove id) (.value none) s
  | popFront (s : List (Id × α)) (id : Id) (x : α) :
      RowStep ((id, x) :: s) .popFront (.value (some x)) s
  | popFrontEmpty : RowStep [] .popFront (.value none) []
  | popBack (s : List (Id × α)) (id : Id) (x : α) :
      RowStep (s ++ [(id, x)]) .popBack (.value (some x)) s
  | popBackEmpty : RowStep [] .popBack (.value none) []
  | moveToBack (l r : List (Id × α)) (id : Id) (x : α) :
      RowStep (l ++ (id, x) :: r) (.moveToBack id) (.flag true) (l ++ r ++ [(id, x)])
  | moveToBackAbsent {s : List (Id × α)} {id : Id} :
      id ∉ s.map Prod.fst → RowStep s (.moveToBack id) (.flag false) s
  | modify (l r : List (Id × α)) (id : Id) (x : α) (f : α → α) :
      RowStep (l ++ (id, x) :: r) (.modify id f) .done (l ++ (id, f x) :: r)
  | modifyAbsent {s : List (Id × α)} {id : Id} (f : α → α) :
      id ∉ s.map Prod.fst → RowStep s (.modify id f) .done s
  | clear (s : List (Id × α)) : RowStep s .clear .done []

def takesOut (s : List (Id × α)) (id : Id) : Chain.Request α → Bool
  | .remove i => i == id
  | .popFront => s.head?.map Prod.fst == some id
  | .popBack => s.getLast?.map Prod.fst == some id
  | .clear => true
  | .pushBack _ | .moveToBack _ | .modify _ _ => false

def written (id : Id) (x : α) : Chain.Request α → α
  | .modify i f => if i = id then f x else x
  | _ => x

theorem RowStep.mem_of_not_takesOut (h : RowStep s r a s') (hs : Distinct s) (hx : (id, x) ∈ s)
    (hr : takesOut s id r = false) : (id, written id x r) ∈ s' := by
  have hother : ∀ {i y}, i ≠ id → (id, x) ≠ (i, y) := by
    intro i y hi hc
    exact hi (congrArg Prod.fst hc).symm
  cases h with
  | pushBack y _ => exact List.mem_append_left _ hx
  | remove l r i y =>
    have hi : i ≠ id := by simpa [takesOut] using hr
    simpa [written, hother hi] using hx
  | popFront s i y =>
    have hi : i ≠ id := by simpa [takesOut] using hr
    exact (List.mem_cons.1 hx).resolve_left (hother hi)
  | popBack s i y =>
    have hi : i ≠ id := by simpa [takesOut] using hr
    simpa [written, hother hi] using hx
  | moveToBack l r i y =>
    refine (List.Perm.mem_iff ?_).1 hx
    rw [List.append_assoc]
    exact (List.perm_append_singleton (i, y) r).symm.append_left l
  | modify l r i y f =>
    by_cases hi : i = id
    · subst hi
      have hfound := hs.lookup?_eq_some.2 ⟨hx, beq_self_eq_true i⟩
      rw [hs.lookup?_split (beq_self_eq_true i), Option.some.injEq, Prod.mk.injEq] at hfound
      simp [written, hfound.2]
    · have hrest : (id, x) ∈ l ∨ (id, x) ∈ r := by simpa [hother hi] using hx
      rw [written, if_neg hi, List.mem_append, List.mem_cons]
      exact hrest.imp_right fun hin ↦ .inr hin
  | clear s => simp [takesOut] at hr
  | removeAbsent _ | popFrontEmpty | popBackEmpty | moveToBackAbsent _ => exact hx
  | @modifyAbsent _ i f hi =>
    have hne : i ≠ id := by
      rintro rfl
      exact hi (List.mem_map_of_mem hx)
    rwa [written, if_neg hne]

namespace Chain

variable {c : Chain α}

/-- The values from the first node to the last, with their ids. -/
def row (c : Chain α) : List (Id × α) := c.ids.filterMap fun id ↦ (c.get? id).map fun x ↦ (id, x)

/-- Whatever is read off the chain is read off the row. -/
structure Reads (c : Chain α) (s : List (Id × α)) : Prop where
  once : (s.map Prod.fst).Nodup
  get? : ∀ id x, c.get? id = some x ↔ (id, x) ∈ s
  contains : ∀ id, c.contains id = true ↔ id ∈ s.map Prod.fst
  first : c.first = s.head?.map Prod.fst
  first? : c.first? = s.head?.map Prod.snd
  last : c.last = s.getLast?.map Prod.fst
  last? : c.last? = s.getLast?.map Prod.snd
  ids : c.ids = s.map Prod.fst
  values : (Cursor.start c).Yields (s.map Prod.snd)
  size : c.size = s.length

namespace Holds

theorem row (h : c.Holds s) : c.row = s := by
  have hget : ∀ p ∈ s, (c.get? p.1).map (fun x ↦ (p.1, x)) = some p := by
    intro p hp
    rw [h.get?_eq_some.2 hp, Option.map_some]
  rw [Chain.row, h.ids, List.filterMap_map]
  exact (List.filterMap_congr hget).trans List.filterMap_some

theorem reads (h : c.Holds s) : c.Reads s where
  once := by
    rw [← h.ids]
    exact h.linked.once
  get? id x := h.get?_eq_some
  contains id := by
    rw [mem_keys_iff, ← h.isSome_get?]
    rfl
  first := by rw [h.first, firstId_eq_head?]
  first? := h.first?
  last := by rw [h.last, lastId_eq_getLast?]
  last? := h.last?
  ids := h.ids
  values := Cursor.yields_start h
  size := h.size

theorem rowStep (h : c.Holds s) (r : Request α) :
    RowStep s r (c.respond r).1 (c.respond r).2.row := by
  have habsent : ∀ {i}, hasKey s i = false → i ∉ s.map Prod.fst := by
    intro i hi
    rw [mem_keys_iff, hi]
    exact Bool.false_ne_true
  cases r with
  | pushBack x =>
    obtain ⟨hfresh, hnext⟩ := h.pushBack x
    rw [Chain.respond, Prod.map_snd, id_eq, hnext.row]
    exact .pushBack x (habsent hfresh)
  | remove i =>
    obtain ⟨hvalue, hnext⟩ := h.remove i
    rw [Chain.respond, Prod.map_fst, Prod.map_snd, id_eq, hvalue, hnext.row]
    cases hi : hasKey s i with
    | false =>
      rw [value?_of_absent hi, without_of_absent hi]
      exact .removeAbsent (habsent hi)
    | true =>
      obtain ⟨l, x, r, rfl⟩ := exists_split_of_hasKey hi
      rw [h.distinct.value?_split (beq_self_eq_true i), h.distinct.without_split (beq_self_eq_true i)]
      exact .remove l r i x
  | popFront =>
    obtain ⟨hvalue, hnext⟩ := h.popFront
    rw [Chain.respond, Prod.map_fst, Prod.map_snd, id_eq, hvalue, hnext.row]
    cases s with
    | nil => exact .popFrontEmpty
    | cons p s => exact .popFront s p.1 p.2
  | popBack =>
    obtain ⟨hvalue, hnext⟩ := h.popBack
    rw [Chain.respond, Prod.map_fst, Prod.map_snd, id_eq, hvalue, hnext.row]
    rcases s.eq_nil_or_concat' with rfl | ⟨s, p, rfl⟩
    · exact .popBackEmpty
    · rw [List.getLast?_concat, List.dropLast_concat]
      exact .popBack s p.1 p.2
  | moveToBack i =>
    obtain ⟨hflag, hnext⟩ := h.moveToBack i
    rw [Chain.respond, Prod.map_fst, Prod.map_snd, id_eq, hflag, hnext.row]
    cases hi : hasKey s i with
    | false =>
      rw [toEnd_of_absent hi]
      exact .moveToBackAbsent (habsent hi)
    | true =>
      obtain ⟨l, x, r, rfl⟩ := exists_split_of_hasKey hi
      rw [h.distinct.toEnd_split (beq_self_eq_true i)]
      exact .moveToBack l r i x
  | modify i f =>
    have hnext := h.modify i f
    rw [Chain.respond, hnext.row]
    cases hi : hasKey s i with
    | false =>
      rw [alter_of_absent f hi]
      exact .modifyAbsent f (habsent hi)
    | true =>
      obtain ⟨l, x, r, rfl⟩ := exists_split_of_hasKey hi
      rw [h.distinct.alter_split (beq_self_eq_true i)]
      exact .modify l r i x f
  | clear =>
    rw [Chain.respond, holds_empty.row]
    exact .clear s

theorem get?_respond (h : c.Holds s) (hx : c.get? id = some x) (hr : takesOut c.row id r = false) :
    (c.respond r).2.get? id = some (written id x r) := by
  obtain ⟨s', hnext⟩ := h.respond r
  have hstep := h.rowStep r
  rw [hnext.row] at hstep
  rw [h.row] at hr
  exact hnext.get?_eq_some.2
    (hstep.mem_of_not_takesOut h.distinct (h.get?_eq_some.1 hx) hr)

theorem get?_after {qs : List (Request α)} (h : c.Holds s) (hx : c.get? id = some x)
    (hqs : ∀ q ∈ Run.calls Chain.respond c qs, takesOut q.met.row id q.request = false) :
    (Run.after Chain.respond c qs).get? id = some (qs.foldl (written id) x) := by
  induction qs generalizing c s x with
  | nil => exact hx
  | cons q qs ih =>
    rw [Run.calls, List.forall_mem_cons] at hqs
    obtain ⟨s', hnext⟩ := h.respond q
    exact ih hnext (h.get?_respond hx hqs.1) hqs.2

end Holds

/-- Each request does to the row of a chain what it would do to a plain list of values with their ids,
and all that is read is read off that list. As long as no request takes the value at an id out, the id
stands for that value as it was written last, whatever happens to the rest. -/
theorem simulates_row (rs : List (Request α)) :
    let c : Chain α := Run.after respond empty rs
    (empty : Chain α).row = [] ∧ c.Reads c.row ∧
      (∀ r, RowStep c.row r (c.respond r).1 (c.respond r).2.row) ∧
      ∀ id x qs, c.get? id = some x →
        (∀ q ∈ Run.calls respond c qs, takesOut q.met.row id q.request = false) →
        (Run.after respond c qs).get? id = some (qs.foldl (written id) x) := by
  intro c
  obtain ⟨s, h⟩ := exists_holds rs
  have hrow : c.row = s := h.row
  refine ⟨holds_empty.row, ?_, ?_, ?_⟩
  · rw [hrow]
    exact h.reads
  · intro r
    rw [hrow]
    exact h.rowStep r
  · intro id x qs hx hqs
    exact h.get?_after hx hqs

theorem simulates_row_reuse :
    let c : Chain ℕ := Run.after respond empty [.pushBack 1, .pushBack 2, .remove ⟨0⟩]
    let qs : List (Request ℕ) := [.pushBack 3, .moveToBack ⟨1⟩, .modify ⟨1⟩ (· + 5), .popFront,
      .remove ⟨7⟩, .pushBack 4, .moveToBack ⟨1⟩]
    c.get? ⟨1⟩ = some 2 ∧
      (∀ q ∈ Run.calls respond c qs, takesOut q.met.row ⟨1⟩ q.request = false) ∧
      (Run.after respond c qs).get? ⟨1⟩ = some 7 := by
  intro c qs
  have hx : c.get? ⟨1⟩ = some 2 := by decide
  have hqs : ∀ q ∈ Run.calls respond c qs, takesOut q.met.row ⟨1⟩ q.request = false := by decide
  exact ⟨hx, hqs, (simulates_row _).2.2.2 ⟨1⟩ 2 qs hx hqs⟩

end Chain

end Holdall.Slot
