import Holdall.Container.SnapshotList
import Holdall.Item.Transform

namespace Holdall.SnapshotList

variable {α σ : Type} {p : α → StateM σ Bool} {x : α} {hit : Bool} {s s' : σ}

/-- Each item with the answer to a question that is asked about the items once, one after another. -/
def judged (p : α → StateM σ Bool) : List α → StateM σ (List (α × Bool))
  | [] => return []
  | x :: xs => do
    let hit ← p x
    let rest ← judged p xs
    return (x, hit) :: rest

def hits (js : List (α × Bool)) : List α := (js.filter (·.2)).map Prod.fst

def misses (js : List (α × Bool)) : List α := (js.filter (!·.2)).map Prod.fst

/-- How many items are hit, and the list of those that are missed. -/
def outcome (js : List (α × Bool)) : Nat × SnapshotList α := ((hits js).length, ⟨misses js⟩)

/-- What the question has become when it hits an item for the first time. -/
def afterHit? (p : α → StateM σ Bool) : List α → σ → Option σ
  | [], _ => none
  | x :: xs, s => if ((p x).run s).1 then some ((p x).run s).2 else afterHit? p xs ((p x).run s).2

/-- The question does not change its mind about an item. -/
def Steady (p : α → StateM σ Bool) : Prop := ∀ x s s', ((p x).run s).1 = ((p x).run s').1

theorem run_judged_cons (h : (p x).run s = (hit, s')) (xs : List α) : (judged p (x :: xs)).run s =
    ((x, hit) :: ((judged p xs).run s').1, ((judged p xs).run s').2) := by
  change ((x, ((p x).run s).1) :: ((judged p xs).run ((p x).run s).2).1,
    ((judged p xs).run ((p x).run s).2).2) = _
  rw [h]

theorem afterHit?_cons (h : (p x).run s = (hit, s')) (xs : List α) :
    afterHit? p (x :: xs) s = if hit then some s' else afterHit? p xs s' := by
  rw [afterHit?, h]

theorem items_judged (p : α → StateM σ Bool) (xs : List α) (s : σ) :
    ((judged p xs).run s).1.map Prod.fst = xs := by
  induction xs generalizing s with
  | nil => rfl
  | cons x xs ih =>
    cases hx : (p x).run s with
    | mk hit s' => rw [run_judged_cons hx, List.map_cons, ih]

theorem judged_of_steady (h : Steady p) (xs : List α) (s s' : σ) :
    ((judged p xs).run s).1 = ((judged p xs).run s').1 := by
  induction xs generalizing s s' with
  | nil => rfl
  | cons x xs ih =>
    cases hx : (p x).run s with
    | mk hit t =>
      cases hx' : (p x).run s' with
      | mk hit' t' =>
        have hsame := h x s s'
        rw [hx, hx'] at hsame
        rw [run_judged_cons hx, run_judged_cons hx', ih t t']
        exact congrArg (fun b ↦ (x, b) :: _) hsame

theorem length_hits (js : List (α × Bool)) : (hits js).length = js.length - (misses js).length := by
  have hsum := List.length_eq_countP_add_countP (·.2) (l := js)
  simp only [List.countP_eq_length_filter, Bool.not_eq_true, Bool.decide_eq_false] at hsum
  rw [hits, misses, List.length_map, List.length_map]
  omega

theorem misses_of_no_hits {js : List (α × Bool)} (h : hits js = []) :
    misses js = js.map Prod.fst := by
  rw [hits, List.map_eq_nil_iff, List.filter_eq_nil_iff] at h
  rw [misses, List.filter_eq_self.2]
  intro j hj
  simpa using h j hj

theorem hits_judged_eq_nil_iff (p : α → StateM σ Bool) (xs : List α) (s : σ) :
    hits ((judged p xs).run s).1 = [] ↔ afterHit? p xs s = none := by
  induction xs generalizing s with
  | nil => exact iff_of_true rfl rfl
  | cons x xs ih =>
    cases hx : (p x).run s with
    | mk hit s' =>
      rw [run_judged_cons hx, afterHit?_cons hx]
      cases hit with
      | true => exact iff_of_false nofun nofun
      | false => exact ih s'

theorem run_anyM (p : α → StateM σ Bool) (xs : List α) (s : σ) : (xs.anyM p).run s =
    match afterHit? p xs s with
    | none => (false, ((judged p xs).run s).2)
    | some s' => (true, s') := by
  induction xs generalizing s with
  | nil => rfl
  | cons x xs ih =>
    cases hx : (p x).run s with
    | mk hit s' =>
      have hcons : ((x :: xs).anyM p).run s = if hit then (true, s') else (xs.anyM p).run s' := by
        rw [List.anyM, StateT.run_bind, hx]
        cases hit <;> rfl
      rw [hcons, afterHit?_cons hx, run_judged_cons hx]
      cases hit with
      | true => rfl
      | false => exact ih s'

theorem run_filterAuxM (p : α → StateM σ Bool) (xs kept : List α) (s : σ) :
    (xs.filterAuxM (fun x ↦ do return !(← p x)) kept).run s =
      ((misses ((judged p xs).run s).1).reverse ++ kept, ((judged p xs).run s).2) := by
  induction xs generalizing s kept with
  | nil => rfl
  | cons x xs ih =>
    cases hx : (p x).run s with
    | mk hit s' =>
      rw [run_judged_cons hx, List.filterAuxM, StateT.run_bind, StateT.run_bind, hx]
      change (xs.filterAuxM (fun x ↦ do return !(← p x)) (cond (!hit) (x :: kept) kept)).run s' = _
      rw [ih]
      cases hit <;> simp [misses]

theorem run_filterM (p : α → StateM σ Bool) (xs : List α) (s : σ) :
    (xs.filterM fun x ↦ do return !(← p x)).run s =
      (misses ((judged p xs).run s).1, ((judged p xs).run s).2) := by
  rw [List.filterM, StateT.run_bind, run_filterAuxM, List.append_nil]
  exact congrArg (·, _) (List.reverse_reverse _)

theorem outcome_judged (l : SnapshotList α) (p : α → StateM σ Bool) (s : σ) :
    outcome ((judged p l.items).run s).1 =
      (l.size - (misses ((judged p l.items).run s).1).length,
        ⟨misses ((judged p l.items).run s).1⟩) := by
  rw [outcome, length_hits, ← List.length_map Prod.fst, items_judged, size]

theorem outcome_judged_of_no_hit {l : SnapshotList α} (h : afterHit? p l.items s = none) :
    outcome ((judged p l.items).run s).1 = (0, l) := by
  have hnone := (hits_judged_eq_nil_iff p l.items s).2 h
  rw [outcome, hnone, misses_of_no_hits hnone, items_judged]
  rfl

/-- The pass that settles what goes begins after the first hit. -/
theorem run_removeWhereM (l : SnapshotList α) (p : α → StateM σ Bool) (s : σ) :
    (l.removeWhereM p).run s =
      let last := (judged p l.items).run ((afterHit? p l.items s).getD s)
      (outcome last.1, last.2) := by
  rw [removeWhereM, StateT.run_bind, run_anyM]
  cases hfirst : afterHit? p l.items s with
  | none =>
    simp only [Option.getD_none, outcome_judged_of_no_hit hfirst]
    rfl
  | some s' =>
    change ((l.items.filterM fun x ↦ do return !(← p x)) >>= fun kept ↦
      return (l.size - kept.length, (⟨kept⟩ : SnapshotList α))).run s' = _
    simp only [StateT.run_bind, run_filterM, Option.getD_some, outcome_judged]
    rfl

/-- What goes and what stays is settled in one pass, but by what the question has become once it has
hit an item. A pass by the question as it was comes to the same exactly when both miss the same items,
and so where the question does not change its mind. -/
theorem removeWhere_judges_afterHit (l : SnapshotList α) (p : α → StateM σ Bool) (s : σ) :
    let once := (judged p l.items).run s
    let last := (judged p l.items).run ((afterHit? p l.items s).getD s)
    let done := (l.removeWhereM p).run s
    done = (outcome last.1, last.2) ∧
    (done.1 = outcome once.1 ↔ misses last.1 = misses once.1) ∧
    (done.1.2.items.Sublist l.items ∧ done.1.1 + done.1.2.size = l.size) ∧
    (Steady p → done.1 = outcome once.1) := by
  intro once last done
  have hdone : done = (outcome last.1, last.2) := run_removeWhereM l p s
  have hlast : last.1.map Prod.fst = l.items := items_judged p l.items _
  have honce : once.1.map Prod.fst = l.items := items_judged p l.items s
  rw [hdone]
  refine ⟨rfl, ?_, ⟨?_, ?_⟩, ?_⟩
  · constructor
    · intro h
      exact congrArg (fun o ↦ o.2.items) h
    · intro h
      have hlength : last.1.length = once.1.length := by
        rw [← List.length_map Prod.fst, hlast, ← honce, List.length_map]
      rw [outcome, length_hits, hlength, h, ← length_hits, outcome]
  · rw [← hlast]
    exact List.filter_sublist.map Prod.fst
  · rw [outcome, length_hits, size, size, ← hlast, List.length_map]
    apply Nat.sub_add_cancel
    rw [misses, List.length_map]
    exact List.length_filter_le _ last.1
  · intro hsteady
    exact congrArg outcome (judged_of_steady hsteady l.items _ s)

theorem removeWhere_judges_afterHit_folded :
    let p := (Question.same (Item.folded "a")).ask
    let l : SnapshotList Item := ⟨[.folded "A", .text "b", .folded "a"]⟩
    Steady p ∧ ((l.removeWhereM p).run []).1 = outcome ((judged p l.items).run []).1 ∧
      outcome ((judged p l.items).run []).1 = (2, ⟨[.text "b"]⟩) := by
  intro p l
  have hsteady : Steady p := fun _ _ _ ↦ rfl
  exact ⟨hsteady, (removeWhere_judges_afterHit l p []).2.2.2 hsteady, rfl⟩

/-- A question that hits only the first time has had its hit before it decides. -/
theorem removeWhere_forgets_hit :
    let p := (Question.first 1).ask
    let l : SnapshotList Item := ⟨[.int 1, .int 2, .int 3]⟩
    (l.removeWhereM p).run [] = ((0, l), [.int 1, .int 1, .int 2, .int 3]) ∧
    (judged p l.items).run [] =
      ([(.int 1, true), (.int 2, false), (.int 3, false)], [.int 1, .int 2, .int 3]) ∧
    ((l.removeWhereM p).run []).1 ≠ outcome ((judged p l.items).run []).1 := by
  refine ⟨rfl, rfl, ?_⟩
  intro h
  exact absurd (congrArg Prod.fst h) (by decide)

end Holdall.SnapshotList
