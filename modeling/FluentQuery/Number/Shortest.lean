import FluentQuery.Number.Double

/-!
# Shortest decimal digits

The reals that round to a given binary number form an interval around it; its ends belong to it
when the significand is even.  `Double.shortest` looks for a decimal in that interval with one
significant digit, then with two, and so on up to seventeen.  For every number of digits only
the two grid points next to the number matter: if any grid point lies in the interval, one of
these does.
-/

namespace FluentQuery

set_option autoImplicit false

/-- Significant digits `d₁ … dₖ` and the exponent `n` of the value `0.d₁…dₖ · 10ⁿ`. -/
structure Decimal where
  digits : List Char
  exponent : Int
deriving DecidableEq, Repr

namespace Decimal

/-- How many decimal digits a natural number has; zero has none. -/
def digitCount (n : Nat) : Nat :=
  if n = 0 then 0 else (Nat.toDigits 10 n).length

/-- The value `f * 10 ^ e` with its trailing zeros dropped. -/
def ofScaled (f : Nat) (e : Int) : Decimal :=
  let digits := Nat.toDigits 10 f
  let kept := (digits.reverse.dropWhile (· == '0')).reverse
  ⟨kept, digits.length + e⟩

end Decimal

namespace Double

/-- The least `p` with `num / den < 10 ^ p`. -/
def decimalMagnitude (num den : Nat) : Int :=
  if den ≤ num then Decimal.digitCount (num / den)
  else 1 - (Decimal.digitCount ((den + num - 1) / num - 1) : Int)

/-- A positive finite number and its rounding interval, as multiples of a quarter unit. -/
structure Interval where
  /-- The number itself is `value * unit`, the ends are `low * unit` and `high * unit`. -/
  low : Nat
  value : Nat
  high : Nat
  /-- Whether the ends round to the number. -/
  closed : Bool
  unitNum : Nat
  unitDen : Nat

/-- The interval of the reals that round to a positive finite number. -/
def interval (x : Double) : Interval :=
  let m := x.significand
  let q := x.scale - 2
  -- Below a power of two the neighbours are twice as close.
  let narrow := m == hiddenBit && x.exponentField > 1
  { low := if narrow then 4 * m - 1 else 4 * m - 2
    value := 4 * m
    high := 4 * m + 2
    closed := m % 2 == 0
    unitNum := if 0 ≤ q then Nat.pow 2 q.toNat else 1
    unitDen := if 0 ≤ q then 1 else Nat.pow 2 (-q).toNat }

namespace Interval

/-- Whether `f * 10 ^ e` lies in the interval. -/
def contains (i : Interval) (f : Nat) (e : Int) : Bool :=
  let point := f * (if 0 ≤ e then Nat.pow 10 e.toNat else 1) * i.unitDen
  let factor := (if 0 ≤ e then 1 else Nat.pow 10 (-e).toNat) * i.unitNum
  if i.closed then i.low * factor ≤ point && point ≤ i.high * factor
  else i.low * factor < point && point < i.high * factor

/-- The decimal with `count` significant digits next to the number, if one rounds to it. -/
def nearest? (i : Interval) (magnitude : Int) (count : Nat) : Option Decimal :=
  let e := magnitude - count
  let num := i.value * i.unitNum * (if 0 ≤ e then 1 else Nat.pow 10 (-e).toNat)
  let den := i.unitDen * (if 0 ≤ e then Nat.pow 10 e.toNat else 1)
  let floor := num / den
  let below := i.contains floor e && floor != 0
  let above := i.contains (floor + 1) e
  let twiceRest := 2 * (num % den)
  if below && above then
    if twiceRest < den || (twiceRest == den && floor % 2 == 0) then some (.ofScaled floor e)
    else some (.ofScaled (floor + 1) e)
  else if below then some (.ofScaled floor e)
  else if above then some (.ofScaled (floor + 1) e)
  else none

end Interval

/-- The fewest digits that read back as the given positive finite number. -/
def shortest (x : Double) : Decimal :=
  let i := x.interval
  let magnitude := decimalMagnitude (i.value * i.unitNum) i.unitDen
  ((List.range 17).findSome? fun k => i.nearest? magnitude (k + 1)).getD ⟨['0'], 1⟩

end Double

end FluentQuery
