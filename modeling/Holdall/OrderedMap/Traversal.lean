import Holdall.OrderedMap.Basic

namespace Holdall.OrderedMap

variable {K V : Type} [BEq K] [Hashable K]

abbrev Cursor (K V : Type) := Slot.Cursor (K × V)

def cursor (m : OrderedMap K V) : Cursor K V := .start m.entries

structure PartCursor (K V A : Type) where
  entries : Cursor K V
  part : K × V → A

def keyCursor (m : OrderedMap K V) : PartCursor K V K := ⟨m.cursor, Prod.fst⟩

def valueCursor (m : OrderedMap K V) : PartCursor K V V := ⟨m.cursor, Prod.snd⟩

namespace PartCursor

variable {A : Type}

omit [BEq K] [Hashable K]

def remaining (u : PartCursor K V A) : Nat := u.entries.remaining

def next? (u : PartCursor K V A) : Option (A × PartCursor K V A) :=
  match u.entries.next? with
  | some (entry, rest) => some (u.part entry, { u with entries := rest })
  | none => none

def take : Nat → PartCursor K V A → List A × PartCursor K V A
  | 0, u => ([], u)
  | n + 1, u =>
    match u.next? with
    | none => ([], u)
    | some (x, v) => let (xs, w) := v.take n; (x :: xs, w)

end PartCursor

/-- The entries of a map that has been given up. -/
structure Drain (K V : Type) where
  entries : Slot.Chain (K × V)

def drain (m : OrderedMap K V) : Drain K V := ⟨m.entries⟩

namespace Drain

omit [BEq K] [Hashable K]

def remaining (d : Drain K V) : Nat := d.entries.size

def next? (d : Drain K V) : Option ((K × V) × Drain K V) :=
  match d.entries.popFront with
  | (some entry, rest) => some (entry, ⟨rest⟩)
  | (none, _) => none

def take : Nat → Drain K V → List (K × V) × Drain K V
  | 0, d => ([], d)
  | n + 1, d =>
    match d.next? with
    | none => ([], d)
    | some (entry, rest) => let (entries, left) := rest.take n; (entry :: entries, left)

end Drain

end Holdall.OrderedMap
