import Holdall.Number.Decimal
import Holdall.Number.Shortest
import Holdall.Text.Letter
import Holdall.Text.Inspect

/-!
Floating-point numbers as texts. A number is written with the fewest digits that read back. Its plain
form never has an exponent; its telling form has one for very small and very large numbers, and shows
by a point that the number is a float.
-/

namespace Holdall.Number

def zeros (n : Nat) : List Char := List.replicate n '0'

def Decimal.positional (d : Decimal) : List Char :=
  let ds := Number.digits d.digits
  if 0 ≤ d.exponent then ds ++ zeros d.exponent.toNat
  else
    let places := (-d.exponent).toNat
    if places < ds.length then ds.take (ds.length - places) ++ '.' :: ds.drop (ds.length - places)
    else '0' :: '.' :: zeros (places - ds.length) ++ ds

/-- One digit before the point, and the power of ten after the mark. -/
def Decimal.scientific (d : Decimal) : List Char :=
  let ds := Number.digits d.digits
  let power := write (d.exponent + (ds.length - 1 : Nat))
  let fraction := if ds.length = 1 then [] else '.' :: ds.drop 1
  ds.take 1 ++ fraction ++ 'e' :: power

def Decimal.leading (d : Decimal) : Int := d.exponent + ((Number.digits d.digits).length - 1 : Nat)

def Decimal.isIntegral (d : Decimal) : Bool := 0 ≤ d.exponent

def signOf (x : Float) : List Char := if x.toBits.toNat / Nat.pow 2 63 = 1 then ['-'] else []

def decimalOf (x : Float) : Decimal :=
  let bits := x.toBits.toNat % Nat.pow 2 63
  if bits = 0 then ⟨0, 0⟩ else (Binary.ofBits bits).shortest

def writeWith (layout : Decimal → List Char) (x : Float) : String :=
  String.ofList (if x.isNaN then ['N', 'a', 'N']
    else if x.isInf then signOf x ++ ['i', 'n', 'f']
    else signOf x ++ layout (decimalOf x))

def writeFloat (x : Float) : String := writeWith Decimal.positional x

/-- Numbers from `1e-4` up to `1e16` are positional, and an integral one ends in a point and a zero. -/
def Decimal.telling (d : Decimal) : List Char :=
  if d.digits ≠ 0 ∧ (d.leading < -4 ∨ 16 ≤ d.leading) then d.scientific
  else d.positional ++ if d.isIntegral then ['.', '0'] else []

instance : Inspect Float := ⟨writeWith Decimal.telling⟩

/-- A number read from text: its digits as a decimal, or one of the special values. -/
inductive FloatReading
  | decimal (digits : List Char) (exponent : Int)
  | infinity
  | notANumber

def readExponent? : List Char → Option Int
  | [] => some 0
  | c :: cs => if c = 'e' ∨ c = 'E' then readInt? cs else none

/-- A row of digits with at most one point and at least one digit, and then an exponent. -/
def readDecimal? (cs : List Char) : Option FloatReading := do
  let whole := cs.takeWhile Char.isDigit
  let rest := cs.dropWhile Char.isDigit
  let (fraction, rest) := match rest with
    | '.' :: rest => (rest.takeWhile Char.isDigit, rest.dropWhile Char.isDigit)
    | rest => ([], rest)
  if whole = [] ∧ fraction = [] then none
  let e ← readExponent? rest
  return .decimal (whole ++ fraction) (e - fraction.length)

def readMagnitude? (cs : List Char) : Option FloatReading :=
  let name := Text.lower (String.ofList cs)
  if name == "inf" || name == "infinity" then some .infinity
  else if name == "nan" then some .notANumber
  else readDecimal? cs

/-- A sign, if there is one, and the rest of the number. -/
def readSigned? : List Char → Option (Bool × FloatReading)
  | '-' :: cs => (readMagnitude? cs).map fun r => (true, r)
  | '+' :: cs => (readMagnitude? cs).map fun r => (false, r)
  | cs => (readMagnitude? cs).map fun r => (false, r)

/-- Where the leading digit of a decimal decides alone: nothing below `10 ^ -400` is told from zero,
and nothing from `10 ^ 400` on is finite. -/
inductive Scale
  | vanishing
  | finite
  | boundless

def scaleOf (digits : Nat) (exponent : Int) : Scale :=
  let leading := exponent + (Number.digits digits).length
  if digits = 0 ∨ leading < -400 then .vanishing else if 400 < leading then .boundless else .finite

/-- Reads a float of some width, given how its values are made. -/
def readAs {F : Type} (ofDecimal : Nat → Bool → Nat → F) (zero infinity nan : F) (negate : F → F)
    (s : String) : Option F := do
  let (negative, reading) ← readSigned? s.toList
  let magnitude := match reading with
    | .infinity => infinity
    | .notANumber => nan
    | .decimal ds e =>
      let n := valueOf ds
      match scaleOf n e with
      | .vanishing => zero
      | .boundless => infinity
      | .finite => ofDecimal n (e < 0) e.natAbs
  return if negative then negate magnitude else magnitude

def readFloat? : String → Option Float :=
  readAs Float.ofScientific 0 (1 / 0) (0 / 0) (- ·)

def readFloat32? : String → Option Float32 :=
  readAs Float32.ofScientific 0 (1 / 0) (0 / 0) (- ·)

end Holdall.Number
