/-!
# Small functions on text
-/

namespace FluentQuery

set_option autoImplicit false

namespace Text

/-- The text with its ASCII letters in lower case; all other characters stay. -/
def lowercase (s : String) : String :=
  s.map Char.toLower

/-- The text up to its first NUL character, which ends a line of output. -/
def untilNul (s : String) : String :=
  String.ofList (s.toList.takeWhile (· ≠ Char.ofNat 0))

/-- Whether a list of characters occurs in another as a contiguous part. -/
def occursIn (part : List Char) : List Char → Bool
  | [] => part.isEmpty
  | c :: rest => part.isPrefixOf (c :: rest) || occursIn part rest

/-- Whether a text occurs in another. -/
def mentions (whole part : String) : Bool :=
  occursIn part.toList whole.toList

/-- Parts joined by dots.  A dot is written before a part only when something stands before it. -/
def dotted (parts : List String) : String :=
  parts.foldl (fun path part => if path.isEmpty then part else path ++ "." ++ part) ""

/-- What stands before and after the first dot; without a dot everything stands after it. -/
def splitQualified (name : String) : String × String :=
  match name.toList.span (· ≠ '.') with
  | (before, _ :: after) => (String.ofList before, String.ofList after)
  | (_, []) => ("", name)

end Text

end FluentQuery
