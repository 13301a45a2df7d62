import Holdall.Proofs.Slot.Chain

namespace Holdall.Slot.Cursor

variable {α : Type} {c : Chain α} {l r s : List (Id × α)}

inductive Yields : Cursor α → List α → Prop
  | done {u : Cursor α} : u.next? = none → Yields u []
  | next {u v : Cursor α} {x : α} {xs : List α} :
      u.next? = some (x, v) → Yields v xs → Yields u (x :: xs)

theorem yields_of_holds (h : c.Holds (l ++ r)) (n : ℕ) :
    Yields ⟨c, firstId none r, n⟩ (r.map Prod.snd) := by
  induction r generalizing l n with
  | nil => exact .done rfl
  | cons p r ih =>
    refine .next (v := ⟨c, firstId none r, n - 1⟩) ?_ (ih (l := l ++ [p]) (by simpa using h) (n - 1))
    simp [next?, h.node_split]

theorem yields_start (h : c.Holds s) : (start c).Yields (s.map Prod.snd) := by
  have hs := yields_of_holds (l := []) h c.size
  rwa [← h.first] at hs

end Holdall.Slot.Cursor
