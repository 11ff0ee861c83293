import FluentQuery.Json.Value

/-!
# Reading JSON text

`Json.parse?` reads one value.  A number without a point and an exponent that fits 64 bits is a
whole number (signed when it is negative, unsigned otherwise); every other number is a floating
point number.  Of two members with one key the later wins.
-/

namespace FluentQuery

set_option autoImplicit false

namespace Json

/-- The text without leading blanks. -/
def skipBlanks : List Char → List Char
  | c :: rest =>
    if c = ' ' ∨ c = '\n' ∨ c = '\r' ∨ c = '\t' then skipBlanks rest else c :: rest
  | [] => []

def hexValue? (c : Char) : Option Nat :=
  if '0' ≤ c ∧ c ≤ '9' then some (c.toNat - 48)
  else if 'a' ≤ c ∧ c ≤ 'f' then some (c.toNat - 87)
  else if 'A' ≤ c ∧ c ≤ 'F' then some (c.toNat - 55)
  else none

/-- Four hexadecimal digits. -/
def readUnit? : List Char → Option (Nat × List Char)
  | a :: b :: c :: d :: rest => do
    let n ← hexValue? a
    let m ← hexValue? b
    let k ← hexValue? c
    let l ← hexValue? d
    return (((n * 16 + m) * 16 + k) * 16 + l, rest)
  | _ => none

/-- The rest of a string after its opening quote; `read` holds the characters so far, reversed.
An escaped pair of surrogates is one character, a lone surrogate the replacement character. -/
def readString? (fuel : Nat) (read : List Char) (text : List Char) : Option (String × List Char) :=
  match fuel with
  | 0 => none
  | fuel + 1 =>
    match text with
    | '"' :: rest => some (String.ofList read.reverse, rest)
    | '\\' :: 'u' :: rest => do
      let (unit, rest) ← readUnit? rest
      if 0xD800 ≤ unit ∧ unit < 0xDC00 then
        match rest with
        | '\\' :: 'u' :: more =>
          let (low, after) ← readUnit? more
          if 0xDC00 ≤ low ∧ low < 0xE000 then
            let code := 0x10000 + (unit - 0xD800) * 0x400 + (low - 0xDC00)
            readString? fuel (Char.ofNat code :: read) after
          else readString? fuel ('\ufffd' :: read) rest
        | _ => readString? fuel ('\ufffd' :: read) rest
      else if 0xDC00 ≤ unit ∧ unit < 0xE000 then readString? fuel ('\ufffd' :: read) rest
      else readString? fuel (Char.ofNat unit :: read) rest
    | '\\' :: c :: rest =>
      let plain : Option Char :=
        match c with
        | 'b' => some (Char.ofNat 8)
        | 'f' => some (Char.ofNat 12)
        | 'n' => some '\n'
        | 'r' => some '\r'
        | 't' => some '\t'
        | '"' => some '"'
        | '\\' => some '\\'
        | '/' => some '/'
        | _ => none
      match plain with
      | some p => readString? fuel (p :: read) rest
      | none => none
    | c :: rest => readString? fuel (c :: read) rest
    | [] => none

/-- The value of a run of decimal digits. -/
def digitsValue (digits : List Char) : Nat :=
  digits.foldl (fun n c => n * 10 + (c.toNat - 48)) 0

/-- The number a token spells. -/
def ofToken (token : List Char) : Json :=
  let negative := token.head? == some '-'
  let token := if negative then token.drop 1 else token
  let whole := token.takeWhile Char.isDigit
  let afterWhole := token.dropWhile Char.isDigit
  if afterWhole.isEmpty then
    let n := digitsValue whole
    if negative then
      if n ≤ 0x8000000000000000 then int (-(n : Int)) else double (.ofDecimal true n 0)
    else if n < 0x10000000000000000 then int n else double (.ofDecimal false n 0)
  else
    let hasPoint := afterWhole.head? == some '.'
    let fraction := if hasPoint then (afterWhole.drop 1).takeWhile Char.isDigit else []
    let afterFraction :=
      if hasPoint then (afterWhole.drop 1).dropWhile Char.isDigit else afterWhole
    let exponentPart := afterFraction.drop 1
    let exponentDigits := exponentPart.filter Char.isDigit
    let magnitude : Int := digitsValue exponentDigits
    let exponent := if exponentPart.head? == some '-' then -magnitude else magnitude
    double (.ofDecimal negative (digitsValue (whole ++ fraction)) (exponent - fraction.length))

def isNumberChar (c : Char) : Bool :=
  c.isDigit || c == '-' || c == '+' || c == '.' || c == 'e' || c == 'E'

mutual

/-- One value and the text after it. -/
def readValue? (fuel : Nat) (text : List Char) : Option (Json × List Char) :=
  match fuel with
  | 0 => none
  | fuel + 1 =>
    match skipBlanks text with
    | 'n' :: 'u' :: 'l' :: 'l' :: rest => some (null, rest)
    | 't' :: 'r' :: 'u' :: 'e' :: rest => some (bool true, rest)
    | 'f' :: 'a' :: 'l' :: 's' :: 'e' :: rest => some (bool false, rest)
    | '"' :: rest => do
      let (s, rest) ← readString? (rest.length + 1) [] rest
      return (str s, rest)
    | '[' :: rest =>
      match skipBlanks rest with
      | ']' :: rest => some (arr [], rest)
      | rest => readItems? fuel [] rest
    | '{' :: rest =>
      match skipBlanks rest with
      | '}' :: rest => some (obj [], rest)
      | rest => readMembers? fuel [] rest
    | text =>
      let token := text.takeWhile isNumberChar
      if token.isEmpty then none else some (ofToken token, text.dropWhile isNumberChar)

/-- The items of an array up to its closing bracket; `read` holds the items so far, reversed. -/
def readItems? (fuel : Nat) (read : List Json) (text : List Char) : Option (Json × List Char) :=
  match fuel with
  | 0 => none
  | fuel + 1 => do
    let (item, rest) ← readValue? fuel text
    match skipBlanks rest with
    | ',' :: rest => readItems? fuel (item :: read) rest
    | ']' :: rest => return (arr (item :: read).reverse, rest)
    | _ => none

/-- The members of an object up to its closing brace. -/
def readMembers? (fuel : Nat) (read : Assoc Json) (text : List Char) :
    Option (Json × List Char) :=
  match fuel with
  | 0 => none
  | fuel + 1 =>
    match skipBlanks text with
    | '"' :: rest => do
      let (key, rest) ← readString? (rest.length + 1) [] rest
      match skipBlanks rest with
      | ':' :: rest =>
        let (value, rest) ← readValue? fuel rest
        match skipBlanks rest with
        | ',' :: rest => readMembers? fuel (Assoc.insert read key value) rest
        | '}' :: rest => return (obj (Assoc.insert read key value), rest)
        | _ => none
      | _ => none
    | _ => none

end

/-- The value a text spells, if it spells exactly one. -/
def parse? (text : String) : Option Json :=
  let chars := text.toList
  match readValue? (2 * chars.length + 1) chars with
  | some (j, rest) => if (skipBlanks rest).isEmpty then some j else none
  | none => none

end Json

end FluentQuery
