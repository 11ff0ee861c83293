import FluentQuery.Sql.Dialect

/-!
# SQL fragments

SQL is assembled from pieces: fixed text and placeholders.  Only rendering a fragment for a dialect
decides how its placeholders are written.
-/

namespace FluentQuery

set_option autoImplicit false

/-- A part of an SQL text. -/
inductive Piece where
  | text (value : String)
  | placeholder (name : String)
deriving DecidableEq, Repr

/-- A part of a statement. -/
abbrev Fragment := List Piece

namespace Piece

/-- The text of a piece in a dialect. -/
def render (d : Dialect) : Piece → String
  | text value => value
  | placeholder name => d.placeholder name

end Piece

namespace Fragment

/-- Fixed text. -/
def text (value : String) : Fragment :=
  [.text value]

/-- A placeholder. -/
def placeholder (name : String) : Fragment :=
  [.placeholder name]

/-- The text of a fragment in a dialect. -/
def render (d : Dialect) : Fragment → String
  | [] => ""
  | piece :: rest => piece.render d ++ render d rest

/-- The placeholders of a fragment, in order. -/
def placeholders (f : Fragment) : List String :=
  f.filterMap fun
    | .placeholder name => some name
    | .text _ => none

/-- Fragments with fixed text between them. -/
def separated (separator : String) : List Fragment → Fragment
  | [] => []
  | [f] => f
  | f :: rest => f ++ text separator ++ separated separator rest

@[simp] theorem placeholders_text (value : String) : (text value).placeholders = [] := rfl

@[simp] theorem placeholders_append (f g : Fragment) :
    placeholders (f ++ g) = f.placeholders ++ g.placeholders :=
  List.filterMap_append

@[simp] theorem placeholders_separated (separator : String) (fs : List Fragment) :
    (separated separator fs).placeholders = fs.flatMap placeholders := by
  fun_induction separated separator fs with
  | case1 => rfl
  | case2 f => simp
  | case3 f rest _ ih => simp [ih]

end Fragment

end FluentQuery
