import Holdall.Number.Decimal
import Holdall.Text.Letter
import Holdall.Text.Inspect
import Std.Data.HashMap

/-!
Items are integers, texts and folded texts, in this order. Folded texts are equal, and stand in
order, up to the case of ASCII letters, but each keeps the letters it was made with; so two items can
be equal without being the same item.
-/

namespace Holdall

inductive Item
  | int (n : Int64)
  | text (s : String)
  | folded (s : String)
  deriving Repr

namespace Item

def kindRank : Item → Nat
  | int _ => 0
  | text _ => 1
  | folded _ => 2

def number : Item → Int64
  | int n => n
  | _ => 0

/-- What counts of the text of an item when items are compared. -/
def matched : Item → String
  | int _ => ""
  | text s => s
  | folded s => Text.lower s

instance : Ord Item :=
  ⟨compareLex (compareOn kindRank) (compareLex (compareOn number) (compareOn matched))⟩

instance : Std.TransOrd Item :=
  inferInstanceAs (Std.TransCmp
    (compareLex (compareOn kindRank) (compareLex (compareOn number) (compareOn matched))))

instance : BEq Item := ⟨fun a b => compare a b == .eq⟩

instance : Hashable Item :=
  ⟨fun a => mixHash (hash a.kindRank) (mixHash (hash a.number) (hash a.matched))⟩

theorem beq_iff (a b : Item) : (a == b) = true ↔ compare a b = .eq := by
  change (compare a b == .eq) = true ↔ _
  exact beq_iff_eq

theorem compare_eq_iff (a b : Item) : compare a b = .eq ↔
    a.kindRank = b.kindRank ∧ a.number = b.number ∧ a.matched = b.matched := by
  change (compareLex (compareOn kindRank) (compareLex (compareOn number) (compareOn matched))) a b
    = .eq ↔ _
  simp only [compareLex, compareOn, Ordering.then_eq_eq, Std.compare_eq_iff_eq]

instance : EquivBEq Item where
  rfl := by simp [beq_iff]
  symm h := by
    rw [beq_iff, compare_eq_iff] at *
    exact ⟨h.1.symm, h.2.1.symm, h.2.2.symm⟩
  trans h h' := by
    rw [beq_iff, compare_eq_iff] at *
    exact ⟨h.1.trans h'.1, h.2.1.trans h'.2.1, h.2.2.trans h'.2.2⟩

instance : LawfulHashable Item where
  hash_eq a b h := by
    obtain ⟨hk, hn, hm⟩ := (compare_eq_iff a b).1 ((beq_iff a b).1 h)
    simp only [hash, hk, hn, hm]

instance : Std.LawfulBEqOrd Item := ⟨fun {a b} => (beq_iff a b).symm⟩

def shown : Item → String
  | int n => Number.writeInt64 n
  | text s => s
  | folded s => s

instance : ToString Item := ⟨shown⟩

instance : Inspect Item where
  inspect
    | int n => Number.writeInt64 n
    | text s => inspect s
    | folded s => inspect s

end Item

end Holdall
