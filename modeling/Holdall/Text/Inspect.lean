import Holdall.Text.Quoted

namespace Holdall

class Inspect (α : Type) where
  inspect : α → String

export Inspect (inspect)

namespace Text

def separated (parts : List String) : String := ", ".intercalate parts

def bracketed (parts : List String) : String := "[" ++ separated parts ++ "]"

def braced (parts : List String) : String := "\x7b" ++ separated parts ++ "\x7d"

def labelled (label part : String) : String := label ++ ": " ++ part

def applied (name : String) (parts : List String) : String := name ++ "(" ++ separated parts ++ ")"

def record (name : String) (fields : List (String × String)) : String :=
  name ++ " \x7b " ++ separated (fields.map fun (label, part) => labelled label part) ++ " \x7d"

end Text

variable {α β : Type} [Inspect α] [Inspect β]

instance : Inspect Bool := ⟨fun b => if b then "true" else "false"⟩

instance : Inspect Nat := ⟨toString⟩

instance : Inspect String := ⟨Text.quoted⟩

instance : Inspect Unit := ⟨fun _ => "()"⟩

instance : Inspect (Option α) where
  inspect
    | none => "None"
    | some a => Text.applied "Some" [inspect a]

instance : Inspect (α × β) := ⟨fun (a, b) => Text.applied "" [inspect a, inspect b]⟩

instance : Inspect (List α) := ⟨fun items => Text.bracketed (items.map inspect)⟩

instance : Inspect (Array α) := ⟨fun items => inspect items.toList⟩

def inspectEntries (entries : List (α × β)) : String :=
  Text.braced (entries.map fun (a, b) => Text.labelled (inspect a) (inspect b))

def inspectItems (items : List α) : String := Text.braced (items.map inspect)

end Holdall
