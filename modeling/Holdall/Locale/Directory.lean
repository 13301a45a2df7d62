import Holdall.Container.HashedMap
import Holdall.Handle
import Holdall.Locale.Lookup
import Holdall.Log
import Holdall.Sequence.Sorting

namespace Holdall.Country

structure Directory where
  found : HashedMap String Country := {}
  sorted : Option (Handle (List Country)) := none
  cells : CellSupply := {}

namespace Directory

def size (d : Directory) : Nat := d.found.size

def isEmpty (d : Directory) : Bool := d.size == 0

def country? (d : Directory) (code : String) : Option Country × Directory :=
  let key := normalCode code
  match d.found.get? key with
  | some c => (some c, d)
  | none =>
    match byCode? key with
    | some c => (some c, { d with found := d.found.put key c })
    | none => (none, d)

/-- All countries in ascending order of their names, as one shared list. -/
def countries (d : Directory) : Handle (List Country) × Directory :=
  match d.sorted with
  | some h => (h, d)
  | none =>
    let (h, cells) := d.cells.share (Sequence.sortedByKey Country.name table.toList)
    (h, { d with sorted := some h, cells })

def codes : List String := table.toList.map Country.alpha2

def clear (d : Directory) : Log.Line × Directory :=
  (.debug s!"country cache cleared ({d.size} entries)", { d with found := {}, sorted := none })

instance : Inspect Directory where
  inspect d := Text.record "CountryCache"
    [("len", inspect d.size), ("sorted", inspect d.sorted.isSome)]

end Directory

end Holdall.Country
