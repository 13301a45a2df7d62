import Holdall.Attribute.Value
import Holdall.OrderedMap.Traversal

namespace Holdall.Attribute

structure Bag where
  entries : OrderedMap String Value := {}

namespace Bag

def empty : Bag := {}

def size (b : Bag) : Nat := b.entries.size

def isEmpty (b : Bag) : Bool := b.entries.isEmpty

def toList (b : Bag) : List (String × Value) := b.entries.toList

def cursor (b : Bag) : OrderedMap.Cursor String Value := b.entries.cursor

def names (b : Bag) : List String := b.entries.keys

def get? (b : Bag) (name : String) : Option Value := b.entries.peek? name

def contains (b : Bag) (name : String) : Bool := b.entries.contains name

def set (b : Bag) (name : String) (v : Value) : Option Value × Bag :=
  let (previous, entries) := b.entries.insert name v
  (previous, ⟨entries⟩)

def adding (b : Bag) (name : String) (v : Value) : Bag := (b.set name v).2

def remove (b : Bag) (name : String) : Option Value × Bag :=
  let (v, entries) := b.entries.remove name
  (v, ⟨entries⟩)

def clear (b : Bag) : Bag := ⟨b.entries.clear⟩

def getBoolD (b : Bag) (name : String) (default : Bool) : Bool :=
  ((b.get? name).bind Value.asBool?).getD default

def getIntD (b : Bag) (name : String) (default : Int64) : Int64 :=
  ((b.get? name).bind Value.asInt?).getD default

def getFloatD (b : Bag) (name : String) (default : Float) : Float :=
  ((b.get? name).bind Value.asFloat?).getD default

def getTextD (b : Bag) (name : String) (default : String) : String :=
  ((b.get? name).bind Value.asText?).getD default

def extend (b : Bag) (pairs : List (String × Value)) : Bag :=
  pairs.foldl (fun b (name, v) => b.adding name v) b

def ofList (pairs : List (String × Value)) : Bag := empty.extend pairs

def merge (b other : Bag) : Bag :=
  ⟨other.toList.foldl (fun entries (name, v) => (entries.insert name v).2) b.entries⟩

/-- Equal values under the same names, in the same order. -/
instance : BEq Bag := ⟨fun a b => a.entries == b.entries⟩

instance : Inspect Bag := ⟨fun b => inspect b.entries⟩

end Bag

/-- Things that have a bag of attributes. -/
class Carrier (C : Type) where
  bag : C → Bag
  setBag : C → Bag → C

instance : Carrier Bag := ⟨id, fun _ b => b⟩

namespace Carrier

variable {C : Type} [Carrier C]

def attribute? (c : C) (name : String) : Option Value := (bag c).get? name

def setAttribute (c : C) (name : String) (v : Value) : Option Value × C :=
  let (previous, b) := (bag c).set name v
  (previous, setBag c b)

def hasAttribute (c : C) (name : String) : Bool := (bag c).contains name

def removeAttribute (c : C) (name : String) : Option Value × C :=
  let (v, b) := (bag c).remove name
  (v, setBag c b)

def attributeNames (c : C) : List String := (bag c).names

end Carrier

end Holdall.Attribute
