/-!
# Decimal text of floating-point numbers

A finite double is `mantissa * 2 ^ exponent`. The digits written for it are the fewest that read back as the same
double, and of those the nearest to it; a tie goes up. `Decimal.shortest` finds them by trying one digit, two digits
and so on: on each decimal grid only the two neighbours of the number can be the nearest point, so both are compared
with the interval of reals that round to the number. All comparisons are between natural numbers.

How the digits are laid out is one record, `FloatLayout`, and `readDecimal` is the way back.
-/

namespace GameScript

/-- A decimal number `digits * 10 ^ exponent`. -/
structure Decimal where
  digits : Nat
  exponent : Int
deriving DecidableEq, Repr

/-- A positive double `mantissa * 2 ^ exponent`; `lowest` says that it is the least of its power of two, so that its
lower neighbour is only half as far away as the upper one. -/
structure Binary where
  mantissa : Nat
  exponent : Int
  lowest : Bool
deriving DecidableEq, Repr

namespace Binary

/-- How many fractions of 52 bits there are. -/
def fractionCount : Nat := 4503599627370496

/-- The absolute bits of an infinite number; those of numbers are below, and all above are not numbers. -/
def infinityBits : Nat := 2047 * fractionCount

/-- The number of the given absolute bits: 11 of exponent, 52 of mantissa. -/
def ofBits (bits : Nat) : Binary :=
  let fraction : Nat := bits % fractionCount
  let scale : Nat := bits / fractionCount % 2048
  if scale = 0 then ⟨fraction, -1074, false⟩
  else ⟨fractionCount + fraction, (scale : Int) - 1075, decide (fraction = 0) && decide (1 < scale)⟩

/-- The number, and the ends of the interval that rounds to it, as fractions of one denominator: lower end, number,
upper end, denominator. -/
def bracket (b : Binary) : Nat × Nat × Nat × Nat :=
  let up := (b.exponent - 2).toNat
  let low := if b.lowest then 4 * b.mantissa - 1 else 4 * b.mantissa - 2
  (low <<< up, (4 * b.mantissa) <<< up, (4 * b.mantissa + 2) <<< up, 1 <<< (2 - b.exponent).toNat)

end Binary

namespace Decimal

/-- A power of ten. -/
def tenTo (n : Nat) : Nat := Nat.pow 10 n

/-- The number of decimal digits; zero has one. -/
def digitCount (n : Nat) : Nat := (Nat.toDigits 10 n).length

/-- The exponent of the leading decimal digit of `num / den`, which is positive. -/
def magnitude (num den : Nat) : Int :=
  if den ≤ num then (digitCount (num / den) : Int) - 1
  else
    let width := digitCount (den / num)
    if num * tenTo (width - 1) = den then 1 - (width : Int) else -(width : Int)

/-- The decimal without trailing zeros. The first argument bounds their number. -/
def dropZeros : Nat → Decimal → Decimal
  | 0, d => d
  | fuel + 1, d => if d.digits ≠ 0 ∧ d.digits % 10 = 0 then dropZeros fuel ⟨d.digits / 10, d.exponent + 1⟩ else d

/-- The point of the grid of multiples of `10 ^ exponent` that reads back as `b` and is nearest to it. -/
def onGrid (b : Binary) (exponent : Int) : Option Decimal :=
  let (low, num, high, den) := b.bracket
  -- all numbers as multiples of `10 ^ exponent / scaledDen`
  let up := tenTo (-exponent).toNat
  let scaledDen := den * tenTo exponent.toNat
  let below := num * up / scaledDen
  let fits (d : Nat) : Bool :=
    if b.mantissa % 2 = 0 then decide (low * up ≤ d * scaledDen) && decide (d * scaledDen ≤ high * up)
    else decide (low * up < d * scaledDen) && decide (d * scaledDen < high * up)
  let fromBelow := num * up - below * scaledDen
  let fromAbove := (below + 1) * scaledDen - num * up
  if fits below && (!fits (below + 1) || decide (fromBelow < fromAbove)) then some ⟨below, exponent⟩
  else if fits (below + 1) then some ⟨below + 1, exponent⟩
  else none

/-- The first hit on the grids of `count`, `count + 1`, … significant digits; `fuel` grids are tried. -/
def search (b : Binary) (top : Int) : (fuel count : Nat) → Decimal
  | 0, _ => ⟨b.mantissa, 0⟩
  | fuel + 1, count =>
    match onGrid b (top - (count : Int) + 1) with
    | some d => dropZeros 20 d
    | none => search b top fuel (count + 1)

/-- The fewest digits that read back as `b`, nearest to it. Seventeen always suffice. -/
def shortest (b : Binary) : Decimal :=
  if b.mantissa = 0 then ⟨0, 0⟩
  else
    let (_, num, _, den) := b.bracket
    search b (magnitude num den) 17 1

end Decimal

/-- How a floating-point number is written. -/
structure FloatLayout where
  /-- The least exponent of the leading digit that is written without an exponent mark. -/
  positionalFrom : Int
  /-- The first exponent of the leading digit that is written with an exponent mark again. -/
  positionalBelow : Int
  /-- What stands after the last digit of a whole number without an exponent mark. -/
  wholeMark : String
  exponentMark : String
  notANumber : String
  infinite : String

namespace FloatLayout

/-- The digits of a number and the exponent of the first of them, laid out. -/
def layout (f : FloatLayout) (d : Decimal) : String :=
  let text := Nat.toDigits 10 d.digits
  let lead : Int := d.exponent + (text.length : Int) - 1
  if d.digits = 0 then "0" ++ f.wholeMark
  else if f.positionalFrom ≤ lead ∧ lead < f.positionalBelow then
    if 0 ≤ d.exponent then String.ofList (text ++ List.replicate d.exponent.toNat '0') ++ f.wholeMark
    else if 0 ≤ lead then
      String.ofList (text.take (lead.toNat + 1)) ++ "." ++ String.ofList (text.drop (lead.toNat + 1))
    else "0." ++ String.ofList (List.replicate ((-lead).toNat - 1) '0' ++ text)
  else
    let tail := text.drop 1
    let point := if tail.isEmpty then "" else "."
    String.ofList (text.take 1) ++ point ++ String.ofList tail ++ f.exponentMark ++ toString lead

/-- The text of a floating-point number. -/
def write (f : FloatLayout) (x : Float) : String :=
  let bits := x.toBits.toNat
  let signBit : Nat := 2048 * Binary.fractionCount
  let sign := if signBit ≤ bits then "-" else ""
  let magnitude := bits % signBit
  if Binary.infinityBits < magnitude then f.notANumber
  else if magnitude = Binary.infinityBits then sign ++ f.infinite
  else sign ++ f.layout (Decimal.shortest (Binary.ofBits magnitude))

end FloatLayout

/-- Floating-point numbers of scripts: at least one digit after the point, and an exponent mark from `1e16` on and
below `1e-4`. -/
def scriptFloat : FloatLayout where
  positionalFrom := -4
  positionalBelow := 16
  wholeMark := ".0"
  exponentMark := "e"
  notANumber := "NaN"
  infinite := "inf"

/-- The value of a run of decimal digits. -/
def digitsValue (cs : List Char) : Nat := cs.foldl (fun n c => 10 * n + (c.toNat - '0'.toNat)) 0

/-- The double nearest to `digits * 10 ^ exponent`. Exponents far outside the range of doubles are cut off first:
they give infinity or zero either way. -/
def readDecimal (digits : Nat) (exponent : Int) : Float :=
  let least : Int := -400 - (Decimal.digitCount digits : Int)
  if digits = 0 then 0.0
  else if exponent < least then 0.0
  else if 400 < exponent then Float.ofScientific digits false 400
  else if exponent < 0 then Float.ofScientific digits true (-exponent).toNat
  else Float.ofScientific digits false exponent.toNat

end GameScript
