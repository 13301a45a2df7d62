import Holdall.Item.Basic
import Holdall.Question

namespace Holdall.Item

instance : Subject Item where
  kind
    | int _ => "int"
    | text _ => "str"
    | folded _ => "ci"
  integer?
    | int n => some n
    | _ => none
  compare? a b := some (compare a b)

def length (a : Item) : Nat := a.shown.length

inductive Transform
  | same
  | length
  | text
  | upper
  | firstCharacter
  | negate
  | add (n : Int64)
  | modulo (n : Int64)
  | append (s : String)
  | constant (a : Item)
  deriving Repr

def onInteger (f : Int64 → Int64) : Item → Item
  | int n => int (f n)
  | a => a

/-- The remainder that is not negative. -/
def remainder (m n : Int64) : Int64 := Int64.ofInt (m.toInt % n.toInt)

def Transform.apply (a : Item) : Transform → Item
  | same => a
  | length => int (Int64.ofNat a.length)
  | text => .text a.shown
  | upper => .text (Text.upper a.shown)
  | firstCharacter => .text (String.ofList (a.shown.toList.take 1))
  | negate => a.onInteger fun n => -n
  | add n => a.onInteger (· + n)
  | modulo n => a.onInteger (remainder · n)
  | append s => .text (a.shown ++ s)
  | constant b => b

inductive Comparison
  | ascending
  | descending
  | shorter
  | longer
  | equal
  deriving DecidableEq, Repr

def Comparison.compare (a b : Item) : Comparison → Ordering
  | ascending => Ord.compare a b
  | descending => Ord.compare b a
  | shorter => Ord.compare a.length b.length
  | longer => Ord.compare b.length a.length
  | equal => .eq

end Holdall.Item
