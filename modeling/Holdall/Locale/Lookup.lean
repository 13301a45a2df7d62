import Holdall.Locale.CountryTable
import Holdall.Locale.LanguageTable
import Holdall.Sequence.Search
import Holdall.Text.Blank
import Holdall.Text.Letter

namespace Holdall

/-- The English name of a language, by its code in lower case. -/
def Language.name? (code : String) : Option String :=
  (Sequence.search? table fun l => compare l.code code).map Language.name

namespace Country

def byAlpha2? (code : String) : Option Country :=
  Sequence.search? table fun c => compare c.alpha2 code

def byAlpha3? (code : String) : Option Country := table.find? (·.alpha3 == code)

def byNumeric? (n : Nat) : Option Country := table.find? (·.numeric == n)

def normalCode (code : String) : String := Text.upper (Text.trim code)

/-- A country by either of its codes, in any case. The size of a code in bytes tells which it is. -/
def byCode? (code : String) : Option Country :=
  match (normalCode code).utf8ByteSize with
  | 2 => byAlpha2? (normalCode code)
  | 3 => byAlpha3? (normalCode code)
  | _ => none

theorem normalCode_normalCode (code : String) : normalCode (normalCode code) = normalCode code := by
  rw [normalCode, normalCode, Text.trim_upper, Text.trim_trim, Text.upper_upper]

theorem byCode?_normalCode (code : String) : byCode? (normalCode code) = byCode? code := by
  rw [byCode?, normalCode_normalCode, byCode?]

instance : ToString Country := ⟨Country.name⟩

instance : Inspect Country where
  inspect c := Text.record "Country" [("alpha2", inspect c.alpha2), ("alpha3", inspect c.alpha3),
    ("numeric", inspect c.numeric), ("name", inspect c.name)]

end Country

end Holdall
