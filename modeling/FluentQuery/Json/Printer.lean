import FluentQuery.Json.Value
import FluentQuery.Number.Shortest

/-!
# JSON text

`Json.compress` writes a value without blanks, objects in key order.  Floating point numbers are
written with the fewest digits that read back, positionally while the decimal point stays near
the digits and with an exponent otherwise.
-/

namespace FluentQuery

set_option autoImplicit false

namespace Decimal

/-- Numbers of at most this many integer digits are written without an exponent. -/
def maxIntegerDigits : Int := 15

/-- The decimal point may precede the digits by fewer zeros than this. -/
def leadingZeroBound : Int := 4

/-- A decimal exponent: a sign and at least two digits. -/
def exponentText (e : Int) : String :=
  let digits := toString e.natAbs
  (if e < 0 then "e-" else "e+") ++ (if digits.length < 2 then "0" ++ digits else digits)

/-- The text of a positive decimal. -/
def text (d : Decimal) : String :=
  let k : Int := d.digits.length
  let n := d.exponent
  let zeros (count : Int) := String.ofList (List.replicate count.toNat '0')
  if k ≤ n ∧ n ≤ maxIntegerDigits then String.ofList d.digits ++ zeros (n - k) ++ ".0"
  else if 0 < n ∧ n ≤ maxIntegerDigits then
    String.ofList (d.digits.take n.toNat) ++ "." ++ String.ofList (d.digits.drop n.toNat)
  else if -leadingZeroBound < n ∧ n ≤ 0 then "0." ++ zeros (-n) ++ String.ofList d.digits
  else
    let fraction := d.digits.drop 1
    String.ofList (d.digits.take 1) ++
      (if fraction.isEmpty then "" else "." ++ String.ofList fraction) ++ exponentText (n - 1)

end Decimal

/-- The text of a floating point number; what is not finite has none and is written as null. -/
def Double.text (x : Double) : String :=
  if !x.isFinite then "null"
  else
    (if x.isNegative then "-" else "") ++
      (if x.significand = 0 then "0.0" else x.shortest.text)

namespace Json

/-- A hexadecimal digit below sixteen, in lower case. -/
def hexDigit (n : Nat) : Char :=
  if n < 10 then Char.ofNat (48 + n) else Char.ofNat (87 + n)

/-- A character inside a quoted string: quotes, backslashes and control characters are escaped. -/
def escapeChar (c : Char) : List Char :=
  if c = '"' then ['\\', '"']
  else if c = '\\' then ['\\', '\\']
  else if c.toNat = 8 then ['\\', 'b']
  else if c.toNat = 12 then ['\\', 'f']
  else if c = '\n' then ['\\', 'n']
  else if c = '\r' then ['\\', 'r']
  else if c = '\t' then ['\\', 't']
  else if c.toNat < 32 then ['\\', 'u', '0', '0', hexDigit (c.toNat / 16), hexDigit (c.toNat % 16)]
  else [c]

/-- A quoted string. -/
def quote (s : String) : String :=
  "\"" ++ String.ofList (s.toList.flatMap escapeChar) ++ "\""

mutual

/-- The text of a value, without blanks. -/
def compress : Json → String
  | null => "null"
  | bool b => if b then "true" else "false"
  | int n => toString n
  | double x => x.text
  | str s => quote s
  | arr items => "[" ++ compressItems items ++ "]"
  | obj members => "\x7b" ++ compressMembers members ++ "\x7d"

/-- The items of an array, separated by commas. -/
def compressItems : List Json → String
  | [] => ""
  | [j] => compress j
  | j :: rest => compress j ++ "," ++ compressItems rest

/-- The members of an object, separated by commas. -/
def compressMembers : List (String × Json) → String
  | [] => ""
  | [(k, v)] => quote k ++ ":" ++ compress v
  | (k, v) :: rest => quote k ++ ":" ++ compress v ++ "," ++ compressMembers rest

end

end Json

end FluentQuery
