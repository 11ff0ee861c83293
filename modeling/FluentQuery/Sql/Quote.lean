/-!
# Quoted SQL names and texts

A quoted token encloses its text in a quote character and writes every quote inside it twice.
`Quote.decode` reads such a token back; the text after it must not start with the same quote.
-/

namespace FluentQuery

set_option autoImplicit false

namespace Quote

/-- The characters of a text with every quote doubled. -/
def double (quote : Char) (text : List Char) : List Char :=
  text.flatMap fun c => if c = quote then [quote, quote] else [c]

/-- A quoted token. -/
def encode (quote : Char) (text : List Char) : List Char :=
  quote :: double quote text ++ [quote]

/-- Reads up to the first quote that is not doubled; `none` if there is no such quote. -/
def decodeBody (quote : Char) : List Char → Option (List Char × List Char)
  | [] => none
  | c :: rest =>
    if c = quote then
      match rest with
      | d :: more =>
        if d = quote then (decodeBody quote more).map fun (text, after) => (quote :: text, after)
        else some ([], d :: more)
      | [] => some ([], [])
    else (decodeBody quote rest).map fun (text, after) => (c :: text, after)

/-- Reads a quoted token: its text and what comes after it. -/
def decode (quote : Char) : List Char → Option (List Char × List Char)
  | c :: rest => if c = quote then decodeBody quote rest else none
  | [] => none

end Quote

/-- A name in double quotes. -/
def quoteIdentifier (name : String) : String :=
  String.ofList (Quote.encode '"' name.toList)

/-- A text in single quotes. -/
def quoteString (text : String) : String :=
  String.ofList (Quote.encode '\'' text.toList)

/-- A table name, qualified when it has a schema. -/
def quoteTable (schema table : String) : String :=
  if schema.isEmpty then quoteIdentifier table
  else quoteIdentifier schema ++ "." ++ quoteIdentifier table

end FluentQuery
