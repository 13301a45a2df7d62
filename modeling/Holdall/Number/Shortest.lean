/-!
The shortest decimal that reads back as a binary floating-point number. Of the decimals with the
fewest digits the nearest is chosen, and of two equally near ones the one away from zero. All of it is
exact arithmetic on natural numbers.
-/

namespace Holdall.Number

/-- The positive number `significand * 2 ^ exponent`. -/
structure Binary where
  significand : Nat
  exponent : Int
  /-- Whether the next smaller number is only half as far away as the next larger one. -/
  narrowBelow : Bool := false
  deriving DecidableEq, Repr

/-- The number `digits * 10 ^ exponent`. -/
structure Decimal where
  digits : Nat
  exponent : Int
  deriving DecidableEq, Repr

structure Ratio where
  num : Nat
  den : Nat
  deriving DecidableEq, Repr

namespace Ratio

def scale (base : Nat) (r : Ratio) (e : Int) : Ratio :=
  if 0 ≤ e then ⟨r.num * Nat.pow base e.toNat, r.den⟩
  else ⟨r.num, r.den * Nat.pow base (-e).toNat⟩

def compareWith (r : Ratio) (n : Nat) : Ordering := compare r.num (n * r.den)

/-- The power of ten at the leading digit of a ratio that is at least `10 ^ e`, found in at most
`fuel` steps up. -/
def climb (r : Ratio) : Nat → Int → Int
  | 0, e => e
  | fuel + 1, e => if (r.scale 10 (-(e + 1))).compareWith 1 == .lt then e else r.climb fuel (e + 1)

/-- The power of ten at the leading digit. The logarithms give it to within a step or two. -/
def leadingPower (r : Ratio) : Int :=
  r.climb 4 (((r.num.log2 : Int) - r.den.log2 - 1) * 30103 / 100000 - 1)

end Ratio

namespace Binary

/-- The parts of the finite positive number with these bits of a 64-bit float. -/
def ofBits (bits : Nat) : Binary :=
  let fraction : Nat := bits % Nat.pow 2 52
  let field : Nat := bits / Nat.pow 2 52 % Nat.pow 2 11
  if field = 0 then ⟨fraction, -1074, false⟩
  else ⟨Nat.pow 2 52 + fraction, (field : Int) - 1075, fraction == 0 && field > 1⟩

/-- A quarter of the distance to the next larger number, as many times as asked. -/
def quarters (b : Binary) (n : Nat) : Ratio := Ratio.scale 2 ⟨n, 1⟩ (b.exponent - 2)

def low (b : Binary) : Ratio :=
  b.quarters (if b.narrowBelow then 4 * b.significand - 1 else 4 * b.significand - 2)

def exact (b : Binary) : Ratio := b.quarters (4 * b.significand)

def high (b : Binary) : Ratio := b.quarters (4 * b.significand + 2)

/-- Whether `n * 10 ^ e` is nearer to this number than to any other. An end of the interval belongs
to the number with the even significand. -/
def readsBack (b : Binary) (n : Nat) (e : Int) : Bool :=
  let below := (b.low.scale 10 (-e)).compareWith n
  let above := (b.high.scale 10 (-e)).compareWith n
  if b.significand % 2 = 0 then below != .gt && above != .lt else below == .lt && above == .gt

/-- The nearest of the decimals with exponent `e` that read back. -/
def onGrid (b : Binary) (e : Int) : Option Decimal :=
  let r := b.exact.scale 10 (-e)
  let floor := r.num / r.den
  let up := decide (r.den ≤ 2 * (r.num % r.den))
  match b.readsBack floor e, b.readsBack (floor + 1) e with
  | true, true => some ⟨if up then floor + 1 else floor, e⟩
  | true, false => some ⟨floor, e⟩
  | false, true => some ⟨floor + 1, e⟩
  | false, false => none

/-- Tries one digit more at a time. -/
def search (b : Binary) : Nat → Int → Decimal
  | 0, e => ⟨(b.exact.scale 10 (-e)).num / (b.exact.scale 10 (-e)).den, e⟩
  | fuel + 1, e => (b.onGrid e).getD (b.search fuel (e - 1))

end Binary

namespace Decimal

/-- Moves up to `fuel` zeros at the end of the digits into the exponent. -/
def strip : Nat → Decimal → Decimal
  | 0, d => d
  | fuel + 1, d =>
    if d.digits % 10 = 0 then strip fuel ⟨d.digits / 10, d.exponent + 1⟩ else d

end Decimal

/-- Seventeen digits tell any two floats of 64 bits apart. -/
def Binary.shortest (b : Binary) : Decimal := (b.search 17 b.exact.leadingPower).strip 18

end Holdall.Number
