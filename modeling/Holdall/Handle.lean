import Holdall.Text.Inspect

/-!
Handles on shared values. A value lives in a cell, and two handles hold one value exactly when they
name one cell.
-/

namespace Holdall

variable {V : Type}

structure Handle (V : Type) where
  cell : Nat
  value : V

instance [Inspect V] : Inspect (Handle V) := ⟨fun h => inspect h.value⟩

/-- Hands out cells that were never handed out before. -/
structure CellSupply where
  next : Nat := 0
  deriving DecidableEq, Repr

def CellSupply.share (s : CellSupply) (v : V) : Handle V × CellSupply := (⟨s.next, v⟩, ⟨s.next + 1⟩)

end Holdall
