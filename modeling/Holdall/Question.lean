import Holdall.Number.Decimal

/-!
Questions that a caller asks about each element of a collection. A question may count how often it was
asked, so asking is a step that keeps the elements asked about; what it kept shows in which order, and
how far, an operation went through its elements.
-/

namespace Holdall

class Subject (α : Type) extends BEq α, ToString α where
  kind : α → String
  integer? : α → Option Int64
  compare? : α → α → Option Ordering

inductive Question (α : Type)
  | always (answer : Bool)
  | even
  | same (x : α)
  | different (x : α)
  | below (x : α)
  | above (x : α)
  | among (xs : List α)
  | longer (n : Nat)
  | begins (s : String)
  | ofKind (name : String)
  | every (n : Nat)
  | first (n : Nat)

namespace Question

variable {α : Type} [Subject α]

def length (x : α) : Nat := (toString x).length

def isEven (x : α) : Bool :=
  match Subject.integer? x with
  | some n => n.toInt % 2 == 0
  | none => length x % 2 == 0

/-- The answer when the question is asked for the `time`-th time, counted from one. -/
def answer (time : Nat) (x : α) : Question α → Bool
  | always b => b
  | even => isEven x
  | same y => x == y
  | different y => x != y
  | below y => Subject.compare? x y == some .lt
  | above y => Subject.compare? x y == some .gt
  | among ys => ys.any (x == ·)
  | longer n => n ≤ length x
  | begins s => s.toList.isPrefixOf (toString x).toList
  | ofKind name => Subject.kind x == name
  | every n => time % n == 0
  | first n => time ≤ n

/-- Asks about one element, and keeps it behind those asked about before. -/
def ask (q : Question α) (x : α) : StateM (List α) Bool := do
  let asked ← get
  set (asked ++ [x])
  return q.answer (asked.length + 1) x

end Question

end Holdall
