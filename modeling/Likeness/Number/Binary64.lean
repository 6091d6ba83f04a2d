/-!
# Likeness.Number.Binary64

Numbers with a 53-bit significand, stored as their 64 interchange bits. Every operation computes
the exact rational result and rounds it once, to the nearest number and to the even one of two
equally near. All of it is arithmetic on natural numbers, so it can be evaluated and reasoned
about in the logic.

The bits below the sign are a *code*: an order-preserving numbering of the non-negative numbers,
with zero at code 0 and infinity at `infiniteCode`. A finite number with code `c` is
`significand c * 2 ^ shift c` units, where a unit is `2 ^ (-1074)`, the smallest positive number.
-/

namespace Likeness

/-- A binary64 number, by its bits. -/
structure Binary64 where
  bits : UInt64
deriving DecidableEq, Inhabited

namespace Binary64

/-! ### Codes -/

/-- The code of infinity. Codes above it are not numbers. -/
def infiniteCode : Nat := 0x7ff0000000000000

/-- The unit `2 ^ (-1074)` as a power of one half. -/
def unitPlaces : Nat := 1074

/-- Significand of a finite code: the stored fraction, with the leading one of a normal number. -/
def significand (code : Nat) : Nat :=
  if code < Nat.pow 2 52 then code else code % Nat.pow 2 52 + Nat.pow 2 52

/-- Power of two, in units, that the significand of a finite code is scaled by. -/
def shift (code : Nat) : Nat := code / Nat.pow 2 52 - 1

/-- The code nearest to `value * 2 ^ lift / divisor` units, the even code on a tie. -/
def roundUnits (value lift divisor : Nat) : Nat :=
  let scaled := value <<< lift
  -- The quotient has `length` or `length + 1` bits, so this drops down to 53 or 54 of them.
  let length := scaled.log2 - divisor.log2
  let guess := length - 53
  let drop := if scaled / (divisor <<< guess) < Nat.pow 2 53 then guess else guess + 1
  let step := divisor <<< drop
  let floor := scaled / step
  let rest := 2 * (scaled % step)
  let rounded := if step < rest || (rest == step && floor % 2 == 1) then floor + 1 else floor
  min (drop * Nat.pow 2 52 + rounded) infiniteCode

/-- The code nearest to the quotient of two naturals; the divisor is positive. -/
def roundQuotient (value divisor : Nat) : Nat := roundUnits value unitPlaces divisor

/-! ### Signs and classes -/

/-- The number of sign and code. -/
def ofCode (negative : Bool) (code : Nat) : Binary64 :=
  ⟨UInt64.ofNat (if negative then Nat.pow 2 63 + code else code)⟩

/-- The bits below the sign. -/
def code (x : Binary64) : Nat := x.bits.toNat % Nat.pow 2 63

/-- Whether the sign bit is set; zero and infinity have a sign too. -/
def isNegative (x : Binary64) : Bool := Nat.pow 2 63 ≤ x.bits.toNat

/-- Whether a value is no number. Its code lies beyond that of infinity. -/
def isNaN (x : Binary64) : Bool := infiniteCode < x.code

/-- Whether a value is a number, and not infinite. -/
def isFinite (x : Binary64) : Bool := x.code < infiniteCode

/-- Whether a value is one of the infinities. -/
def isInfinite (x : Binary64) : Bool := x.code == infiniteCode

/-- Whether a value is one of the zeros. -/
def isZero (x : Binary64) : Bool := x.code == 0

/-- The result of an operation without a value. -/
def nan : Binary64 := ⟨0x7ff8000000000000⟩

/-- Infinity with a sign. -/
def infinity (negative : Bool) : Binary64 := ofCode negative infiniteCode

/-- The positive zero. -/
def zero : Binary64 := ⟨0⟩

/-- The number one. -/
def one : Binary64 := ⟨0x3ff0000000000000⟩

/-! ### Order -/

/-- Position on the number line: both zeros are at 0. -/
def rank (x : Binary64) : Int := if x.isNegative then -(x.code : Int) else x.code

/-- Numeric order; nothing is below or above what is not a number. -/
def lt (x y : Binary64) : Bool := !x.isNaN && !y.isNaN && x.rank < y.rank

/-- Less than or equal to; nothing is if either is not a number. -/
def le (x y : Binary64) : Bool := !x.isNaN && !y.isNaN && x.rank ≤ y.rank

/-- Numeric equality: the zeros are equal, and what is not a number differs from itself. -/
def equals (x y : Binary64) : Bool := !x.isNaN && !y.isNaN && x.rank == y.rank

/-! ### Conversions -/

/-- The nearest number to `value / divisor`, for a positive divisor. -/
def ofQuotient (negative : Bool) (value divisor : Nat) : Binary64 :=
  ofCode negative (roundQuotient value divisor)

/-- The nearest number to a natural. -/
def ofNat (n : Nat) : Binary64 := ofQuotient false n 1

/-- The nearest number to an integer. -/
def ofInt (i : Int) : Binary64 := ofQuotient (i < 0) i.natAbs 1

/-- The nearest number to the decimal `digits * 10 ^ exponent`. -/
def ofDecimal (negative : Bool) (digits : Nat) (exponent : Int) : Binary64 :=
  if digits = 0 then ofCode negative 0
  else
    -- Beyond these exponents the result is infinite or zero whatever the digits are.
    let length : Int := digits.log2
    if 1100 < exponent then infinity negative
    else if exponent + length < -1200 then ofCode negative 0
    else if 0 ≤ exponent then ofQuotient negative (digits * Nat.pow 10 exponent.toNat) 1
    else ofQuotient negative digits (Nat.pow 10 exponent.natAbs)

/-! ### Arithmetic -/

/-- The same number with the other sign. -/
protected def neg (x : Binary64) : Binary64 := ofCode (!x.isNegative) x.code

/-- Signed significand of a finite number. -/
def signed (x : Binary64) : Int :=
  if x.isNegative then -(significand x.code : Int) else significand x.code

/-- The nearest number to the sum. -/
protected def add (x y : Binary64) : Binary64 :=
  if x.isNaN || y.isNaN then nan
  else if x.isInfinite then
    if y.isInfinite && x.isNegative != y.isNegative then nan else x
  else if y.isInfinite then y
  else
    let low := min (shift x.code) (shift y.code)
    let sum := x.signed * Nat.pow 2 (shift x.code - low) + y.signed * Nat.pow 2 (shift y.code - low)
    if sum = 0 then ofCode (x.isNegative && y.isNegative) 0
    else ofCode (sum < 0) (roundUnits sum.natAbs low 1)

/-- The nearest number to the difference. -/
protected def sub (x y : Binary64) : Binary64 := x.add y.neg

/-- The nearest number to the product. -/
protected def mul (x y : Binary64) : Binary64 :=
  let negative := x.isNegative != y.isNegative
  if x.isNaN || y.isNaN then nan
  else if x.isInfinite || y.isInfinite then
    if x.isZero || y.isZero then nan else infinity negative
  else
    ofCode negative (roundUnits (significand x.code * significand y.code)
      (shift x.code + shift y.code) (Nat.pow 2 unitPlaces))

/-- The nearest number to the quotient. Dividing by zero leads to infinity. -/
protected def div (x y : Binary64) : Binary64 :=
  let negative := x.isNegative != y.isNegative
  if x.isNaN || y.isNaN then nan
  else if x.isInfinite then if y.isInfinite then nan else infinity negative
  else if y.isInfinite then ofCode negative 0
  else if y.isZero then if x.isZero then nan else infinity negative
  else
    let low := min (shift x.code) (shift y.code)
    ofCode negative (roundQuotient (significand x.code * Nat.pow 2 (shift x.code - low))
      (significand y.code * Nat.pow 2 (shift y.code - low)))

instance : Neg Binary64 := ⟨Binary64.neg⟩
instance : Add Binary64 := ⟨Binary64.add⟩
instance : Sub Binary64 := ⟨Binary64.sub⟩
instance : Mul Binary64 := ⟨Binary64.mul⟩
instance : Div Binary64 := ⟨Binary64.div⟩

/-- A fraction of one as a percentage. -/
def percent (x : Binary64) : Binary64 := x * ofNat 100

end Binary64

end Likeness
