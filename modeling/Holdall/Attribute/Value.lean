import Holdall.Number.FloatText
import Holdall.Text.Blank
import Holdall.Question

namespace Holdall.Attribute

inductive Value
  | bool (b : Bool)
  | int (n : Int64)
  | float (x : Float)
  | text (s : String)
  | list (items : List Value)
  deriving Inhabited

namespace Value

/-- Integers widen to floats where a float is asked for, to the nearest one. -/
def asFloat? : Value → Option Float
  | float x => some x
  | int n => some n.toFloat
  | text s => Number.readFloat? (Text.trim s)
  | _ => none

def asInt? : Value → Option Int64
  | int n => some n
  | text s => Number.readInt64? (Text.trim s)
  | _ => none

def readBool? (s : String) : Option Bool :=
  if Text.sameLetters s "true" then some true
  else if Text.sameLetters s "false" then some false
  else none

def asBool? : Value → Option Bool
  | bool b => some b
  | text s => readBool? (Text.trim s)
  | _ => none

def asText? : Value → Option String
  | text s => some s
  | _ => none

def asList? : Value → Option (List Value)
  | list items => some items
  | _ => none

def kind : Value → String
  | bool _ => "bool"
  | int _ => "int"
  | float _ => "float"
  | text _ => "text"
  | list _ => "list"

mutual

/-- Equality of one kind with itself. Floats compare as numbers, so that one that is no number equals
nothing. -/
def same : Value → Value → Bool
  | bool a, bool b => a == b
  | int m, int n => m == n
  | float x, float y => x == y
  | text s, text t => s == t
  | list xs, list ys => sameItems xs ys
  | _, _ => false

def sameItems : List Value → List Value → Bool
  | [], [] => true
  | x :: xs, y :: ys => same x y && sameItems xs ys
  | _, _ => false

end

instance : BEq Value := ⟨same⟩

mutual

def shown : Value → String
  | bool b => inspect b
  | int n => Number.writeInt64 n
  | float x => Number.writeFloat x
  | text s => s
  | list items => Text.bracketed (shownItems items)

def shownItems : List Value → List String
  | [] => []
  | x :: xs => shown x :: shownItems xs

end

instance : ToString Value := ⟨shown⟩

mutual

def inspected : Value → String
  | bool b => Text.applied "Bool" [inspect b]
  | int n => Text.applied "Int" [Number.writeInt64 n]
  | float x => Text.applied "Float" [inspect x]
  | text s => Text.applied "Text" [inspect s]
  | list items => Text.applied "List" [Text.bracketed (inspectedItems items)]

def inspectedItems : List Value → List String
  | [] => []
  | x :: xs => inspected x :: inspectedItems xs

end

instance : Inspect Value := ⟨inspected⟩

instance : Subject Value where
  kind := kind
  integer?
    | int n => some n
    | _ => none
  compare? _ _ := none

class Source (α : Type) where
  value : α → Value

instance : Source Value := ⟨id⟩

instance : Source Bool := ⟨bool⟩

instance : Source Int64 := ⟨int⟩

instance : Source Int32 := ⟨fun n => int n.toInt64⟩

instance : Source UInt32 := ⟨fun n => int (Int64.ofNat n.toNat)⟩

instance : Source Float := ⟨float⟩

instance : Source Float32 := ⟨fun x => float x.toFloat⟩

instance : Source String := ⟨text⟩

instance {α : Type} [Source α] : Source (List α) := ⟨fun xs => list (xs.map Source.value)⟩

end Value

end Holdall.Attribute
