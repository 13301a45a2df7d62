import Holdall.BoundedMap.Basic
import Holdall.Proofs.OrderedMap.Refinement

namespace Holdall

variable {K V : Type}

namespace BoundedMap

inductive Request (K V : Type)
  | insert (k : K) (v : V)
  | get (k : K)
  | modify (k : K) (f : V → V)
  | peek (k : K)
  | contains (k : K)
  | touch (k : K)
  | remove (k : K)
  | popEldest
  | setMaxSize (n : ℕ)
  | clear
  | resetStats

inductive Answer (K V : Type)
  | value (v : Option V)
  | entry (e : Option (K × V))
  | flag (b : Bool)
  | refused (e : ConfigError)
  | done
  deriving DecidableEq, Repr

def Answer.ofExcept : Except ConfigError Unit → Answer K V
  | .ok () => done
  | .error e => refused e

end BoundedMap

open Association

/-- Entries with a bound on their number, and the entries that were dropped to keep to it. -/
structure BoundedList (K V : Type) where
  entries : List (K × V) := []
  maxSize : ℕ
  dropped : List (K × V) := []

namespace BoundedList

open BoundedMap

variable {b : BoundedList K V}

def dropEldest (n : ℕ) (b : BoundedList K V) : BoundedList K V :=
  { b with entries := b.entries.drop n, dropped := b.dropped ++ b.entries.take n }

def trim (b : BoundedList K V) : BoundedList K V := b.dropEldest (b.entries.length - b.maxSize)

def Fits (b : BoundedList K V) : Prop := b.entries.length ≤ b.maxSize

theorem fits_trim (b : BoundedList K V) : b.trim.Fits := by
  simp only [Fits, trim, dropEldest, List.length_drop]
  omega

variable [BEq K]

def respond (order : EntryOrder) (b : BoundedList K V) : Request K V → Answer K V × BoundedList K V
  | .insert k v => (.value (value? b.entries k), { b with entries := insert order b.entries k v }.trim)
  | .get k => (.value (value? b.entries k), { b with entries := use order b.entries k })
  | .modify k f => (.value (value? b.entries k), { b with entries := alter (use order b.entries k) k f })
  | .peek k => (.value (value? b.entries k), b)
  | .contains k => (.flag (hasKey b.entries k), b)
  | .touch k => (.flag (hasKey b.entries k), { b with entries := use order b.entries k })
  | .remove k => (.value (value? b.entries k), { b with entries := without b.entries k })
  | .popEldest => (.entry b.entries.head?, { b with entries := b.entries.tail })
  | .setMaxSize 0 => (.refused .noRoom, b)
  | .setMaxSize (n + 1) => (.done, { b with maxSize := n + 1 }.trim)
  | .clear => (.done, { b with entries := [] })
  | .resetStats => (.done, b)

theorem fits_respond (order : EntryOrder) (h : b.Fits) (r : Request K V) :
    (b.respond order r).2.Fits := by
  cases r with
  | insert k v => exact fits_trim _
  | get k | touch k => simpa [respond, Fits] using h
  | modify k f => simpa [respond, Fits] using h
  | peek k | contains k | resetStats => exact h
  | remove k => exact Nat.le_trans (without_sublist _ _).length_le h
  | popEldest => exact Nat.le_trans (List.tail_sublist _).length_le h
  | setMaxSize n =>
    cases n with
    | zero => exact h
    | succ n => exact fits_trim _
  | clear => exact Nat.zero_le _

theorem fits_after (order : EntryOrder) (h : b.Fits) (rs : List (Request K V)) :
    (Run.after (respond order) b rs).Fits :=
  Run.after_induction (P := Fits) (fun _ r hb ↦ fits_respond order hb r) h rs

end BoundedList

end Holdall
