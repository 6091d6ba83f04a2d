import Likeness.Number.Binary64

/-!
# Likeness.Number.Decimal

Decimal text of binary64 numbers.

`Binary64.shortest` finds the shortest decimal that reads back as a given finite number, and among
those the nearest one. It walks the decimal grids from coarse to fine and stops at the first grid
that has a point inside the interval of reals rounding to the number. If a grid has such a point,
then so is one of the two grid points next to the number itself, so only these two are tested.
-/

namespace Likeness

/-- The decimal `digits * 10 ^ exponent`. -/
structure Decimal where
  digits : Nat
  exponent : Int
deriving DecidableEq, Inhabited

namespace Decimal

/-- Moves trailing zeros of the digits into the exponent, `places` of them at most. -/
def trim : Nat → Decimal → Decimal
  | 0, d => d
  | places + 1, d =>
    if d.digits ≠ 0 ∧ d.digits % 10 = 0 then trim places ⟨d.digits / 10, d.exponent + 1⟩ else d

end Decimal

namespace Binary64

/-! ### The shortest decimal -/

/-- The reals that round to a finite positive number, in quarter units. -/
structure Cell where
  low : Nat
  value : Nat
  high : Nat
  /-- Whether both ends belong to the cell: a tie goes to the even significand. -/
  closed : Bool

/-- The cell of a code. Below a power of two the numbers lie twice as dense. -/
def cell (code : Nat) : Cell :=
  let m := significand code
  let s := shift code
  let gap := if m = Nat.pow 2 52 ∧ 0 < s then 1 else 2
  { low := (4 * m - gap) <<< s, value := (4 * m) <<< s, high := (4 * m + 2) <<< s,
    closed := m % 2 = 0 }

/-- One in quarter units. -/
def quarterUnits : Nat := Nat.pow 2 (unitPlaces + 2)

/-- The grid point of `10 ^ exponent` nearest to the number among those in its cell. -/
def Cell.onGrid? (c : Cell) (exponent : Int) : Option Nat :=
  let scale := if exponent < 0 then Nat.pow 10 exponent.natAbs else 1
  let step := if exponent < 0 then quarterUnits else quarterUnits * Nat.pow 10 exponent.natAbs
  let value := c.value * scale
  let below := value / step
  let rest := value % step
  let lowHit := c.low * scale < below * step || (c.closed && c.low * scale == below * step)
  let highHit := (below + 1) * step < c.high * scale ||
    (c.closed && (below + 1) * step == c.high * scale)
  if rest = 0 then some below
  else if lowHit && highHit then
    if 2 * rest < step || (2 * rest == step && below % 2 == 0) then some below
    else some (below + 1)
  else if lowHit then some below
  else if highHit then some (below + 1)
  else none

/-- Whether the number is at least `10 ^ exponent`. -/
def Cell.reaches (c : Cell) (exponent : Int) : Bool :=
  if exponent < 0 then quarterUnits ≤ c.value * Nat.pow 10 exponent.natAbs
  else quarterUnits * Nat.pow 10 exponent.natAbs ≤ c.value

/-- Tries the grids from `exponent` down to finer ones. -/
def Cell.search (c : Cell) : Nat → Int → Decimal
  | 0, exponent => ⟨c.value * Nat.pow 10 exponent.natAbs / quarterUnits, exponent⟩
  | steps + 1, exponent =>
    if c.reaches exponent then
      match c.onGrid? exponent with
      | some digits => ⟨digits, exponent⟩
      | none => c.search steps (exponent - 1)
    else c.search steps (exponent - 1)

/-- The shortest decimal that reads back as the magnitude of a finite number. Seventeen digits
always suffice, and the first grid tried is at most two too coarse. -/
def shortest (x : Binary64) : Decimal :=
  if x.isZero then ⟨0, 0⟩
  else
    let c := cell x.code
    let binary : Int := (c.value.log2 : Int) - (unitPlaces + 2)
    Decimal.trim 20 (c.search 24 (binary * 1233 / 4096 + 1))

/-! ### Layouts -/

/-- The choices a text format makes when it writes a number. -/
structure Layout where
  /-- Written between the exponent mark and an exponent that is not negative. -/
  plus : String
  notANumber : String
  infinite : String

/-- Digits with the point after the first `places` of them. -/
def positional (digits : String) (places : Int) : String :=
  let length : Int := digits.length
  if places ≤ 0 then
    "0." ++ String.ofList (List.replicate places.natAbs '0') ++ digits
  else if places < length then
    String.ofList (digits.toList.take places.toNat) ++ "." ++
      String.ofList (digits.toList.drop places.toNat)
  else
    digits ++ String.ofList (List.replicate (places - length).toNat '0') ++ ".0"

/-- One digit before the point, and the exponent without padding. -/
def scientific (layout : Layout) (digits : String) (exponent : Int) : String :=
  let mantissa := match digits.toList with
    | [] => ""
    | [c] => String.singleton c
    | c :: rest => String.singleton c ++ "." ++ String.ofList rest
  mantissa ++ "e" ++ (if exponent < 0 then "-" else layout.plus) ++ toString exponent.natAbs

/-- The shortest text of a number: positional from `1e-5` up to `1e16`, scientific beyond. -/
def write (layout : Layout) (x : Binary64) : String :=
  let sign := if x.isNegative then "-" else ""
  if x.isNaN then layout.notANumber
  else if x.isInfinite then sign ++ layout.infinite
  else
    let d := x.shortest
    let digits := toString d.digits
    let places : Int := digits.length + d.exponent
    let magnitude :=
      if d.digits = 0 then "0.0"
      else if -5 < places ∧ places ≤ 16 then positional digits places
      else scientific layout digits (places - 1)
    sign ++ magnitude

/-! ### A fixed number of places -/

/-- The quotient of naturals rounded to an integer, ties to even. -/
def roundToNat (value divisor : Nat) : Nat :=
  let floor := value / divisor
  let rest := 2 * (value % divisor)
  if divisor < rest || (rest == divisor && floor % 2 == 1) then floor + 1 else floor

/-- Text with exactly two digits after the point, rounded from the exact value. -/
def writeTwoPlaces (x : Binary64) : String :=
  let sign := if x.isNegative then "-" else ""
  if x.isNaN then "NaN"
  else if x.isInfinite then sign ++ "inf"
  else
    let hundredths := roundToNat ((significand x.code * 100) <<< shift x.code) (Nat.pow 2 unitPlaces)
    let cents := hundredths % 100
    sign ++ toString (hundredths / 100) ++ "." ++ (if cents < 10 then "0" else "") ++ toString cents

end Binary64

end Likeness
