import Holdall.Error
import Holdall.Locale.Lookup
import Holdall.Number.Decimal
import Holdall.Text.Bytes
import Holdall.Text.Padding

namespace Holdall

structure Locale where
  language : String := ""
  country : String := ""
  variant : String := ""
  deriving DecidableEq, Hashable, Repr

namespace Locale

instance : Ord Locale :=
  ⟨compareLex (compareOn language) (compareLex (compareOn country) (compareOn variant))⟩

/-- A locale of any three texts: blanks around them are dropped, languages are in lower case and
countries in upper case. -/
def ofParts (language country variant : String) : Locale where
  language := Text.lower (Text.trim language)
  country := Text.upper (Text.trim country)
  variant := Text.trim variant

inductive TagError
  | empty
  | badLanguage (tag : String)
  | badCountry (tag : String)
  | noPart (tag : String)
  deriving DecidableEq, Repr

def TagError.message : TagError → String
  | empty => "empty locale tag"
  | badLanguage tag => "invalid language in locale tag: " ++ inspect tag
  | badCountry tag => "invalid country in locale tag: " ++ inspect tag
  | noPart tag => "locale tag has no language or country: " ++ inspect tag

def TagError.toArgumentError (e : TagError) : ArgumentError := .invalid e.message

def isSeparator (c : Char) : Bool := c == '_' || c == '-'

def part (cs : List Char) : List Char := cs.takeWhile (!isSeparator ·)

def rest (cs : List Char) : List Char := (cs.dropWhile (!isSeparator ·)).drop 1

/-- The language that stands for none. -/
def isUndetermined (cs : List Char) : Bool := cs.map Char.toLower == ['u', 'n', 'd']

/-- A part without the language that stands for none. -/
def determined (cs : List Char) : List Char := if isUndetermined cs then [] else cs

/-- Two to eight bytes, each a letter. -/
def isLanguage (cs : List Char) : Bool :=
  2 ≤ (Text.bytes cs).length && (Text.bytes cs).length ≤ 8 && (Text.bytes cs).all Text.isLetterByte

/-- Two bytes, each a letter, or three bytes, each a digit. -/
def isCountry (cs : List Char) : Bool :=
  (Text.bytes cs).length == 2 && (Text.bytes cs).all Text.isLetterByte
    || (Text.bytes cs).length == 3 && (Text.bytes cs).all Text.isDigitByte

def parse (text : String) : Except TagError Locale :=
  let tag := Text.trim text
  let language := determined (part tag.toList)
  let country := part (rest tag.toList)
  let variant := rest (rest tag.toList)
  if tag.isEmpty then .error .empty
  else if !language.isEmpty && !isLanguage language then .error (.badLanguage tag)
  else if !country.isEmpty && !isCountry country then .error (.badCountry tag)
  else if language.isEmpty && country.isEmpty then .error (.noPart tag)
  else .ok (ofParts (String.ofList language) (String.ofList country) (String.ofList variant))

/-- The parts joined by underscores, up to the last that is not empty. A variant alone is not shown. -/
def shown (l : Locale) : String :=
  if l.language.isEmpty && l.country.isEmpty then ""
  else l.language
    ++ (if l.country.isEmpty && l.variant.isEmpty then "" else "_" ++ l.country)
    ++ (if l.variant.isEmpty then "" else "_" ++ l.variant)

instance : ToString Locale := ⟨shown⟩

def shownIn (l : Locale) (field : Text.Field) : String := field.fit l.shown

/-- The parts that are not empty, joined by hyphens; a language must be there. -/
def languageTag (l : Locale) : String :=
  (if l.language.isEmpty then "und" else l.language)
    ++ (if l.country.isEmpty then "" else "-" ++ l.country)
    ++ (if l.variant.isEmpty then "" else "-" ++ l.variant)

def languageName? (l : Locale) : Option String := Language.name? l.language

/-- The country by its number, where the text is one, and else by its code of two letters. -/
def countryRecord? (l : Locale) : Option Country :=
  match Number.readUInt16? l.country with
  | some n => Country.byNumeric? n
  | none => Country.byAlpha2? l.country

def countryName? (l : Locale) : Option String := l.countryRecord?.map Country.name

def countryAlpha3? (l : Locale) : Option String := l.countryRecord?.map Country.alpha3

/-- Each part that is there is a code in the tables, and one of them is there. -/
def isKnown (l : Locale) : Bool :=
  (l.language.isEmpty || l.languageName?.isSome)
    && (l.country.isEmpty || l.countryRecord?.isSome)
    && !(l.language.isEmpty && l.country.isEmpty)

instance : Inspect Locale where
  inspect l := Text.record "Locale" [("language", inspect l.language),
    ("country", inspect l.country), ("variant", inspect l.variant)]

end Locale

end Holdall
