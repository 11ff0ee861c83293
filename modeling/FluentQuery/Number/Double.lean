/-!
# Binary floating point numbers

A `Double` is the 64-bit pattern of a binary floating point number.  Everything here is exact
integer arithmetic on the pattern, so equality of numbers is equality of patterns and every
operation can be evaluated in a proof.  `Double.ofRatio` rounds a quotient to the nearest number,
a tie going to the even neighbour; decimals and divisions are read through it.
-/

namespace FluentQuery

set_option autoImplicit false

/-- A binary floating point number, given by its bit pattern. -/
structure Double where
  bits : UInt64
deriving DecidableEq, Repr

namespace Double

/-- Whether the sign bit is set. -/
def isNegative (x : Double) : Bool :=
  x.bits >>> 63 == 1

/-- The eleven exponent bits. -/
def exponentField (x : Double) : Nat :=
  ((x.bits >>> 52) &&& 0x7FF).toNat

/-- The fifty-two fraction bits. -/
def fractionField (x : Double) : Nat :=
  (x.bits &&& 0xFFFFFFFFFFFFF).toNat

/-- Neither infinite nor undefined. -/
def isFinite (x : Double) : Bool :=
  x.exponentField != 0x7FF

/-- The leading bit of a significand, which the pattern leaves out: `2 ^ 52`. -/
def hiddenBit : Nat :=
  0x10000000000000

/-- The integer `m` of the magnitude `m * 2 ^ q` of a finite number. -/
def significand (x : Double) : Nat :=
  if x.exponentField = 0 then x.fractionField else x.fractionField + hiddenBit

/-- The exponent `q` of the magnitude `m * 2 ^ q` of a finite number. -/
def scale (x : Double) : Int :=
  if x.exponentField = 0 then -1074 else (x.exponentField : Int) - 1075

/-- The number with the opposite sign. -/
def negate (x : Double) : Double :=
  ⟨x.bits ^^^ 0x8000000000000000⟩

/-- A pattern made of a sign and the remaining 63 bits. -/
def ofFields (negative : Bool) (rest : Nat) : Double :=
  ⟨(rest + if negative then 0x8000000000000000 else 0).toUInt64⟩

/-- The infinity of the given sign. -/
def infinity (negative : Bool) : Double :=
  ofFields negative (0x7FF * hiddenBit)

/-- `num / (den * 2 ^ k)` as numerator and denominator. -/
def scaled (num den : Nat) (k : Int) : Nat × Nat :=
  if 0 ≤ k then (num, den * Nat.pow 2 k.toNat) else (num * Nat.pow 2 (-k).toNat, den)

/-- The quotient of two naturals to the nearest integer, a half going to the even one. -/
def roundQuotient (num den : Nat) : Nat :=
  let floor := num / den
  let rest := num % den
  if 2 * rest > den ∨ (2 * rest = den ∧ floor % 2 = 1) then floor + 1 else floor

/-- The number nearest to `num / den`, ties to even; beyond the range it is infinite. -/
def ofRatio (negative : Bool) (num den : Nat) : Double :=
  if num = 0 then ofFields negative 0
  else
    let low : Int := max (-1074) ((Nat.log2 num : Int) - Nat.log2 den - 53)
    let probe := scaled num den low
    let k := if probe.1 / probe.2 ≥ 2 * hiddenBit then low + 1 else low
    let fraction := scaled num den k
    let m := roundQuotient fraction.1 fraction.2
    -- A significand that rounds up to the next power of two carries into the exponent.
    let field := if m < hiddenBit then m else (k + 1074).toNat * hiddenBit + m
    if field ≥ 0x7FF * hiddenBit then infinity negative else ofFields negative field

/-- The number nearest to an integer. -/
def ofInt (n : Int) : Double :=
  ofRatio (n < 0) n.natAbs 1

/-- The number nearest to `mantissa * 10 ^ exponent`. -/
def ofDecimal (negative : Bool) (mantissa : Nat) (exponent : Int) : Double :=
  let magnitude : Int := (Nat.toDigits 10 mantissa).length + exponent
  if mantissa = 0 ∨ magnitude < -330 then ofFields negative 0
  else if magnitude > 310 then infinity negative
  else if 0 ≤ exponent then ofRatio negative (mantissa * Nat.pow 10 exponent.toNat) 1
  else ofRatio negative mantissa (Nat.pow 10 (-exponent).toNat)

/-- The integer part, rounding toward zero. -/
def truncate (x : Double) : Int :=
  let magnitude : Nat :=
    if 0 ≤ x.scale then x.significand * Nat.pow 2 x.scale.toNat
    else x.significand / Nat.pow 2 (-x.scale).toNat
  if x.isNegative then -magnitude else magnitude

end Double

end FluentQuery
