import Holdall.Container.HashedMap
import Holdall.Handle
import Holdall.Locale.Tag
import Holdall.Log
import Holdall.Sequence.Sorting

namespace Holdall.Locale

structure Registry where
  instances : HashedMap Locale (Handle Locale) := {}
  cells : CellSupply := {}

namespace Registry

def size (r : Registry) : Nat := r.instances.size

def isEmpty (r : Registry) : Bool := r.size == 0

def intern (r : Registry) (l : Locale) : Handle Locale × Registry :=
  match r.instances.get? l with
  | some h => (h, r)
  | none =>
    let (h, cells) := r.cells.share l
    (h, ⟨r.instances.put l h, cells⟩)

def request (r : Registry) (language country variant : String) : Handle Locale × Registry :=
  r.intern (ofParts language country variant)

def requestTag (r : Registry) (tag : String) : Except TagError (Handle Locale) × Registry :=
  match parse tag with
  | .ok l => (r.intern l).map .ok id
  | .error e => (.error e, r)

def languages (r : Registry) : List String :=
  let named := r.instances.keys.filter (!·.language.isEmpty)
  Sequence.withoutRepeats (Sequence.sorted (named.map language))

def selected (r : Registry) (p : Locale → Bool) : List (Handle Locale) :=
  Sequence.sortedByKey Handle.value (r.instances.values.filter (p ·.value))

def ofCountry (r : Registry) (country : String) : List (Handle Locale) :=
  r.selected (·.country == Text.upper (Text.trim country))

def ofLanguage (r : Registry) (language : String) : List (Handle Locale) :=
  r.selected (·.language == Text.lower (Text.trim language))

/-- Every language of the table, whether asked for or not. -/
def availableLanguages : List String := Language.table.toList.map Language.code

/-- Forgets all instances; what was handed out stays with its holders. -/
def clear (r : Registry) : Log.Line × Registry :=
  (.debug s!"locale cache cleared ({r.size} entries)", { r with instances := {} })

instance : Inspect Registry := ⟨fun r => Text.record "LocaleCache" [("len", inspect r.size)]⟩

end Registry

end Holdall.Locale
