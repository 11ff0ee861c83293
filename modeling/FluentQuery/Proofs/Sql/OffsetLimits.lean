import FluentQuery.Proofs.Number.Text
import FluentQuery.Proofs.Sql.TextRules

/-!
# Limits in front of offsets

One dialect has an OFFSET without a LIMIT, the other writes `LIMIT -1` in front of it.
`Fragment.limitOffsets` computes the second text from the first: it runs over the pieces of a whole
statement and knows, for every parenthesis that is open, whether a LIMIT was written in it, so that a
nested statement counts for itself.

The text of an expression has no clauses, and nothing happens in it (`Sql.inert_rules`).  For texts with
statements in them, `Fragment.Becomes` says what a part becomes wherever it stands, and
`Fragment.Completes` what a statement becomes at the start of its parentheses.
-/

namespace FluentQuery

set_option autoImplicit false

namespace Piece

/-- Fixed text that begins with the given word. -/
def beginsWith (word : String) : Piece → Bool
  | text value => word.toList.isPrefixOf value.toList
  | placeholder _ => false

/-- Fixed text that begins by closing a parenthesis. -/
def closes : Piece → Bool
  | text value => value.toList.head? == some ')'
  | placeholder _ => false

/-- Fixed text that ends by opening a parenthesis. -/
def opens : Piece → Bool
  | text value => value.toList.getLast? == some '('
  | placeholder _ => false

/-- A piece that begins neither of the clauses that page rows. -/
def isOrdinary (piece : Piece) : Bool :=
  !piece.beginsWith "LIMIT" && !piece.beginsWith "OFFSET"

end Piece

namespace Fragment

/-- What there is to know of the open parentheses after a piece.  The list says of each of them, the
innermost first, and at last of the text around them all, whether there has been a LIMIT. -/
def levels (limited : List Bool) (piece : Piece) : List Bool :=
  if piece.beginsWith "LIMIT" then true :: limited.tail
  else
    let around := if piece.closes then limited.tail else limited
    if piece.opens then false :: around else around

/-- A text in which every OFFSET without a LIMIT has got one without effect.  A LIMIT counts for the
OFFSET if it is written before it, between the same parentheses. -/
def limitOffsets : List Bool → Fragment → Fragment
  | _, [] => []
  | limited, piece :: rest =>
    (if piece.beginsWith "OFFSET" && !limited.headD false then text "LIMIT -1" ++ text " " else []) ++
      piece :: limitOffsets (levels limited piece) rest

@[simp] theorem limitOffsets_nil (limited : List Bool) : limitOffsets limited [] = [] := rfl

/-- No placeholder is added. -/
@[simp] theorem placeholders_limitOffsets (limited : List Bool) (f : Fragment) :
    (limitOffsets limited f).placeholders = f.placeholders := by
  induction f generalizing limited with
  | nil => rfl
  | cons piece rest ih =>
    have cons (g : Fragment) : placeholders (piece :: g) = placeholders [piece] ++ placeholders g :=
      placeholders_append [piece] g
    rw [limitOffsets, placeholders_append, cons, cons rest, ih]
    split <;> rfl

variable {word : String} (limited : List Bool) (rest : Fragment)

/-- Nothing is put in front of an ordinary word. -/
theorem limitOffsets_text (ordinary : (Piece.text word).isOrdinary = true) :
    limitOffsets limited (text word ++ rest) =
      text word ++ limitOffsets (levels limited (.text word)) rest := by
  have noOffset : (Piece.text word).beginsWith "OFFSET" = false := by
    simp only [Piece.isOrdinary, Bool.and_eq_true, Bool.not_eq_true'] at ordinary
    exact ordinary.2
  show limitOffsets limited (.text word :: rest) = _
  rw [limitOffsets, noOffset]
  rfl

/-- An ordinary word opens or closes parentheses, and limits nothing. -/
theorem levels_ordinary (ordinary : (Piece.text word).isOrdinary = true) :
    levels limited (.text word) =
      if (Piece.text word).opens then
        false :: if (Piece.text word).closes then limited.tail else limited
      else if (Piece.text word).closes then limited.tail else limited := by
  have noLimit : (Piece.text word).beginsWith "LIMIT" = false := by
    simp only [Piece.isOrdinary, Bool.and_eq_true, Bool.not_eq_true'] at ordinary
    exact ordinary.1
  rw [levels, noLimit]
  rfl

/-- Behind a LIMIT no other one is needed. -/
theorem limitOffsets_limit (limit : (Piece.text word).beginsWith "LIMIT" = true) (before : Bool) :
    limitOffsets (before :: limited) (text word ++ rest) =
      text word ++ limitOffsets (true :: limited) rest := by
  have noOffset : (Piece.text word).beginsWith "OFFSET" = false := by
    cases offset : (Piece.text word).beginsWith "OFFSET" with
    | false => rfl
    | true =>
      obtain ⟨more, hlimit⟩ := List.isPrefixOf_iff_prefix.1 limit
      obtain ⟨more', hoffset⟩ := List.isPrefixOf_iff_prefix.1 offset
      rw [← hoffset] at hlimit
      simp at hlimit
  show limitOffsets _ (.text word :: rest) = _
  rw [limitOffsets, noOffset, levels, limit]
  rfl

/-- An OFFSET gets a limit if none was written since the parenthesis around it was opened. -/
theorem limitOffsets_offset (before : Bool) :
    limitOffsets (before :: limited) (text "OFFSET " ++ rest) =
      (if before then [] else text "LIMIT -1" ++ text " ") ++
        (text "OFFSET " ++ limitOffsets (before :: limited) rest) := by
  cases before <;> rfl

/-! ### Parts of statements -/

/-- What a part becomes, wherever it stands: it closes the parentheses it opens, and there is no LIMIT
outside of these. -/
def Becomes (f f' : Fragment) : Prop :=
  ∀ limited rest, limitOffsets limited (f ++ rest) = f' ++ limitOffsets limited rest

/-- A part in which nothing happens. -/
def Inert (f : Fragment) : Prop :=
  f.Becomes f

/-- What a statement becomes, alone or at the start of the parentheses around it. -/
def Completes (f f' : Fragment) : Prop :=
  ∃ after, ∀ limited rest,
    limitOffsets (false :: limited) (f ++ rest) = f' ++ limitOffsets (after :: limited) rest

/-- A word that belongs to no clause of interest, opens no parenthesis and closes none. -/
def IsPlain (word : String) : Prop :=
  (Piece.text word).isOrdinary = true ∧ (Piece.text word).closes = false ∧
    (Piece.text word).opens = false

/-- A word that ends with an opening parenthesis, and begins with no closing one. -/
def IsOpening (word : String) : Prop :=
  (Piece.text word).isOrdinary = true ∧ (Piece.text word).closes = false ∧
    (Piece.text word).opens = true

/-- A word that begins with a closing parenthesis, and ends with no opening one. -/
def IsClosing (word : String) : Prop :=
  (Piece.text word).isOrdinary = true ∧ (Piece.text word).closes = true ∧
    (Piece.text word).opens = false

instance (word : String) : Decidable (IsPlain word) := inferInstanceAs (Decidable (_ ∧ _))

instance (word : String) : Decidable (IsOpening word) := inferInstanceAs (Decidable (_ ∧ _))

instance (word : String) : Decidable (IsClosing word) := inferInstanceAs (Decidable (_ ∧ _))

variable {f f' g g' : Fragment} {word opening closing : String}

/-- A statement that stands alone becomes what it completes to. -/
theorem Completes.limitOffsets_eq (h : Completes f f') : limitOffsets [false] f = f' := by
  obtain ⟨after, h⟩ := h
  have alone := h [] []
  rwa [List.append_nil, limitOffsets_nil, List.append_nil] at alone

namespace Becomes

theorem nil : Becomes [] [] :=
  fun _ _ => rfl

/-- Parts may be put together. -/
theorem append (left : Becomes f f') (right : Becomes g g') : Becomes (f ++ g) (f' ++ g') := by
  intro limited rest
  rw [List.append_assoc, left, right, List.append_assoc]

/-- A plain word stays as it is. -/
theorem text (plain : IsPlain word) : Becomes (text word) (text word) := by
  obtain ⟨ordinary, closes, opens⟩ := plain
  intro limited rest
  rw [limitOffsets_text limited rest ordinary, levels_ordinary limited ordinary, closes, opens]
  rfl

theorem placeholder (name : String) :
    Becomes (Fragment.placeholder name) (Fragment.placeholder name) :=
  fun _ _ => rfl

/-- A part may stand as a statement. -/
theorem completes (h : Becomes f f') : Completes f f' :=
  ⟨false, fun limited rest => h (false :: limited) rest⟩

theorem before (h : Becomes f f') (plain : IsPlain word) :
    Becomes (f ++ Fragment.text word) (f' ++ Fragment.text word) :=
  h.append (text plain)

theorem after (h : Becomes f f') (plain : IsPlain word) :
    Becomes (Fragment.text word ++ f) (Fragment.text word ++ f') :=
  (text plain).append h

/-- Parts with plain words between them make a part. -/
theorem separated {separator : String} (plain : IsPlain separator) {fs fs' : List Fragment}
    (h : List.Forall₂ Becomes fs fs') :
    Becomes (Fragment.separated separator fs) (Fragment.separated separator fs') :=
  forall₂_separated nil append (text plain) h

end Becomes

namespace Completes

/-- Parentheses around a statement make a part. -/
theorem enclosed (h : Completes f f') (opens : IsOpening opening) (closes : IsClosing closing) :
    Becomes (text opening ++ f ++ text closing) (text opening ++ f' ++ text closing) := by
  obtain ⟨after, h⟩ := h
  obtain ⟨ordinary, noClosing, isOpening⟩ := opens
  obtain ⟨ordinary', isClosing, noOpening⟩ := closes
  intro limited rest
  have opened : levels limited (.text opening) = false :: limited := by
    rw [levels_ordinary limited ordinary, noClosing, isOpening]
    rfl
  have closed : levels (after :: limited) (.text closing) = limited := by
    rw [levels_ordinary _ ordinary', isClosing, noOpening]
    rfl
  simp only [List.append_assoc]
  rw [limitOffsets_text _ _ ordinary, opened, h, limitOffsets_text _ _ ordinary', closed]

/-- Between two pairs of parentheses there is one word. -/
theorem turn (h : Completes f f') (h' : Completes g g')
    (ordinary : (Piece.text word).isOrdinary = true) (closes : (Piece.text word).closes = true)
    (opens : (Piece.text word).opens = true) :
    Completes (f ++ text word ++ g) (f' ++ text word ++ g') := by
  obtain ⟨after, h⟩ := h
  obtain ⟨after', h'⟩ := h'
  refine ⟨after', fun limited rest => ?_⟩
  have turned : levels (after :: limited) (.text word) = false :: limited := by
    rw [levels_ordinary _ ordinary, closes, opens]
    rfl
  simp only [List.append_assoc]
  rw [h, limitOffsets_text _ _ ordinary, turned, h']

end Completes

/-! ### Words -/

/-- The first and the last character of a word. -/
def HasEnds (first last : Char) (word : String) : Prop :=
  word.toList.head? = some first ∧ word.toList.getLast? = some last

instance (first last : Char) (word : String) : Decidable (HasEnds first last word) :=
  inferInstanceAs (Decidable (_ ∧ _))

/-- Of two words together, the first one begins and the second one ends. -/
theorem HasEnds.append {a b c d : Char} {s t : String} (h : HasEnds a b s) (h' : HasEnds c d t) :
    HasEnds a d (s ++ t) := by
  constructor
  · rw [String.toList_append, List.head?_append, h.1, Option.some_or]
  · rw [String.toList_append, List.getLast?_append, h'.2, Option.some_or]

/-- A quoted word begins and ends with its quote, so that no clause is in it. -/
theorem hasEnds_quoted {quote : Char} {text : List Char} :
    HasEnds quote quote (String.ofList (Quote.encode quote text)) := by
  constructor
  · rw [String.toList_ofList]
    rfl
  · rw [String.toList_ofList, Quote.encode, List.getLast?_concat]

theorem hasEnds_identifier (name : String) : HasEnds '"' '"' (quoteIdentifier name) :=
  hasEnds_quoted

theorem hasEnds_qualified (row name : String) :
    HasEnds '"' '"' (quoteIdentifier row ++ "." ++ quoteIdentifier name) := by
  have point : HasEnds '.' '.' "." := by decide
  exact ((hasEnds_identifier row).append point).append (hasEnds_identifier name)

theorem hasEnds_table (schema table : String) : HasEnds '"' '"' (quoteTable schema table) := by
  unfold quoteTable
  split
  · exact hasEnds_identifier table
  · exact hasEnds_qualified schema table

section Ends

variable {first last : Char} (ends : HasEnds first last word)

include ends

/-- A clause that pages rows is known by its first character. -/
theorem HasEnds.isOrdinary (noLimit : first ≠ 'L') (noOffset : first ≠ 'O') :
    (Piece.text word).isOrdinary = true := by
  cases chars : word.toList with
  | nil => simp [Piece.isOrdinary, Piece.beginsWith, chars]
  | cons c rest =>
    have same := ends.1
    rw [chars, List.head?_cons, Option.some_inj] at same
    subst same
    simp [Piece.isOrdinary, Piece.beginsWith, chars, List.isPrefixOf, noLimit.symm, noOffset.symm]

theorem HasEnds.closes : (Piece.text word).closes = (first == ')') := by
  rw [Piece.closes, ends.1]
  rfl

theorem HasEnds.opens : (Piece.text word).opens = (last == '(') := by
  rw [Piece.opens, ends.2]
  rfl

/-- Whether a word is plain is decided by its first and its last character. -/
theorem HasEnds.isPlain (begins : first ≠ 'L' ∧ first ≠ 'O' ∧ first ≠ ')') (closed : last ≠ '(') :
    IsPlain word :=
  ⟨ends.isOrdinary begins.1 begins.2.1, by rw [ends.closes, beq_false_of_ne begins.2.2],
    by rw [ends.opens, beq_false_of_ne closed]⟩

end Ends

/-- A word in which none of a few characters occurs is plain. -/
theorem isPlain_of_free (free : ∀ c ∈ word.toList, c ≠ 'L' ∧ c ≠ 'O' ∧ c ≠ ')' ∧ c ≠ '(') :
    IsPlain word := by
  cases begun : word.toList.head? with
  | none =>
    rw [List.head?_eq_none_iff, String.toList_eq_nil_iff] at begun
    subst begun
    decide
  | some first =>
    obtain ⟨last, ended⟩ : ∃ last, word.toList.getLast? = some last := by
      cases chars : word.toList with
      | nil => simp [chars] at begun
      | cons c rest => exact ⟨_, List.getLast?_eq_some_getLast (List.cons_ne_nil c rest)⟩
    have begins := free first (List.mem_of_mem_head? begun)
    have ends := free last (List.mem_of_getLast? ended)
    exact HasEnds.isPlain ⟨begun, ended⟩ ⟨begins.1, begins.2.1, begins.2.2.1⟩ ends.2.2.2

/-- Numbers are plain. -/
theorem isPlain_of_numeral (numeral : Numeral word) : IsPlain word := by
  apply isPlain_of_free
  intro c mem
  have known := numeral c mem
  refine ⟨?_, ?_, ?_, ?_⟩ <;> rintro rfl <;> exact absurd known (by decide)

/-- Constants are quoted, bracketed, numbers or words of their own. -/
theorem isPlain_constant (v : Json) : IsPlain (Sql.constant v) := by
  cases v with
  | null => exact (by decide : IsPlain "NULL")
  | bool value => cases value <;> simp only [Sql.constant] <;> decide
  | int n => exact isPlain_of_numeral (.of_int n)
  | double x => exact isPlain_of_numeral (.of_double x)
  | str s => exact hasEnds_quoted.isPlain (by decide) (by decide)
  | arr items =>
    have ends : HasEnds '[' ']' (Json.compress (.arr items)) := by
      constructor
      · simp [Json.compress]
      · rw [Json.compress, String.toList_append]
        exact List.getLast?_concat
    exact ends.isPlain (by decide) (by decide)
  | obj members =>
    have ends : HasEnds '\x7b' '\x7d' (Json.compress (.obj members)) := by
      constructor
      · simp [Json.compress]
      · rw [Json.compress, String.toList_append]
        exact List.getLast?_concat
    exact ends.isPlain (by decide) (by decide)

end Fragment

/-! ### Expressions -/

namespace Sql

open Fragment

/-- A list is inert if its items are. -/
theorem inert_list {separator : String} (plain : IsPlain separator) {fs : List Fragment}
    (h : ∀ f ∈ fs, f.Inert) : (separated separator fs).Inert :=
  .separated plain (List.forall₂_same.2 h)

theorem inert_enclosed {f : Fragment} {opening closing : String} (h : f.Inert)
    (opens : IsOpening opening) (closes : IsClosing closing) :
    (text opening ++ f ++ text closing).Inert :=
  h.completes.enclosed opens closes

theorem inert_parenthesized {f : Fragment} (h : f.Inert) : (text "(" ++ f ++ text ")").Inert :=
  inert_enclosed h (by decide) (by decide)

/-- A window is written between the parentheses of its function and those of OVER. -/
theorem inert_window (function : WindowFunction) {fs gs : List Fragment} (hf : ∀ f ∈ fs, f.Inert)
    (hg : ∀ g ∈ gs, g.Inert) : (window function fs gs).Inert := by
  have keys : (text "ORDER BY " ++ separated ", " gs).Inert :=
    (inert_list (by decide) hg).after (by decide)
  have groups : (text "PARTITION BY " ++ separated ", " fs).Inert :=
    (inert_list (by decide) hf).after (by decide)
  unfold window
  refine inert_enclosed (inert_list (by decide) ?_) (by cases function <;> decide) (by decide)
  split
  · exact List.forall_mem_singleton.2 keys
  · exact List.forall_mem_cons.2 ⟨groups, List.forall_mem_singleton.2 keys⟩

theorem inert_between {f g : Fragment} (left : f.Inert) {word : String} (plain : IsPlain word)
    (right : g.Inert) : (f ++ text word ++ g).Inert :=
  (left.before plain).append right

/-- A comparison is inert, the test for null among its forms. -/
theorem inert_comparison {d : Dialect} (op : ComparisonOp) {f g : Fragment} (left : f.Inert)
    (right : g.Inert) : (comparison d op f g).Inert := by
  have plain : (f ++ text (" " ++ op.sql ++ " ") ++ g).Inert :=
    inert_between left (by cases op <;> decide) right
  unfold comparison
  cases op with
  | eq | neq =>
    dsimp only
    split
    · exact left.before (by decide)
    split
    · exact right.before (by decide)
    · exact plain
  | _ => exact plain

/-- A negation is inert with parentheses and without. -/
theorem inert_negation {d : Dialect} {f : Fragment} (h : f.Inert) : (negation d f).Inert := by
  unfold negation
  split
  · exact h.after (by decide)
  · exact inert_enclosed h (by decide) (by decide)

/-- LIKE has its argument between two plain words. -/
theorem inert_textTest (test : TextTest) {f g : Fragment} (object : f.Inert) (argument : g.Inert) :
    (test.sql f g).Inert := by
  cases test with
  | startsWith => exact (inert_between object (by decide) argument).before (by decide)
  | endsWith => exact inert_between object (by decide) argument
  | includes | contains => exact (inert_between object (by decide) argument).before (by decide)

theorem inert_caseInsensitive (test : CaseInsensitiveTest) {f g : Fragment} (left : f.Inert)
    (right : g.Inert) : (test.sql f g).Inert := by
  cases test with
  | equals | endsWith => exact inert_between left (by decide) right
  | startsWith | contains => exact (inert_between left (by decide) right).before (by decide)

/-- The items of a test for membership stand in parentheses. -/
theorem inert_memberOf (negated : Bool) {f : Fragment} {gs : List Fragment} (value : f.Inert)
    (items : ∀ g ∈ gs, g.Inert) : (memberOf negated f gs).Inert := by
  unfold memberOf
  split
  · exact .text (by cases negated <;> decide)
  · rw [List.append_assoc, List.append_assoc, ← List.append_assoc (text _)]
    exact value.append
      (inert_enclosed (inert_list (by decide) items) (by cases negated <;> decide) (by decide))

/-- No form of text has a LIMIT or an OFFSET of its own, and all of them close their parentheses. -/
theorem inert_rules (scope : SqlScope) : TextRules scope (fun _ => True) Inert where
  column name := .text ((hasEnds_identifier name).isPlain (by decide) (by decide))
  qualifiedColumn row name := .text ((hasEnds_qualified row name).isPlain (by decide) (by decide))
  excludedColumn name := by
    have word : HasEnds 'e' '.' "excluded." := by decide
    exact .text ((word.append (hasEnds_identifier name)).isPlain (by decide) (by decide))
  star := .text (by decide)
  qualifiedStar row := by
    have word : HasEnds '.' '*' ".*" := by decide
    exact .text (((hasEnds_identifier row).append word).isPlain (by decide) (by decide))
  constant v _ := .text (isPlain_constant v)
  truth value := .text (by cases value <;> decide)
  param _ _ _ _ := .placeholder _
  item _ _ _ _ _ _ _ _ := .placeholder _
  booleanParam _ _ _ := .placeholder _
  arithmetic op _ _ left right := by
    have word : IsPlain (" " ++ op.name ++ " ") := by cases op <;> decide
    have whole := inert_parenthesized (inert_between left word right)
    simpa only [List.append_assoc] using whole
  logical op _ _ left right := by
    have word : IsPlain op.sql := by cases op <;> decide
    have whole := inert_parenthesized (inert_between left word right)
    simpa only [List.append_assoc] using whole
  concat _ _ left right := inert_between left (by decide) right
  stringMethod method _ operand :=
    inert_enclosed operand (by cases method <;> decide) (by decide)
  aggregate function _ operand :=
    inert_enclosed operand (by cases function <;> decide) (by decide)
  aggregateAll function := .text (by cases function <;> decide)
  whenClause _ _ condition result := inert_between (condition.after (by decide)) (by decide) result
  caseWhen _ clauses := ((inert_list (by decide) clauses).after (by decide)).before (by decide)
  caseElse _ _ clauses result :=
    (inert_between ((inert_list (by decide) clauses).after (by decide)) (by decide) result).before
      (by decide)
  list _ parts := inert_list (by decide) parts
  coalesce _ parts := inert_enclosed (inert_list (by decide) parts) (by decide) (by decide)
  order _ descending key := key.before (by cases descending <;> decide)
  window function _ _ partition order := inert_window function partition order
  comparison op _ _ left right := inert_comparison op left right
  negation _ operand := inert_negation operand
  textTest test _ _ object argument := inert_textTest test object argument
  caseInsensitive test _ _ left right :=
    inert_caseInsensitive test (inert_enclosed left (by decide) (by decide))
      (inert_enclosed right (by decide) (by decide))
  memberOf negated _ _ value items := inert_memberOf negated value items
  isNull _ negated operand := operand.before (by cases negated <;> decide)
  truthValue _ condition := (condition.after (by decide)).before (by decide)
  named _ name column := by
    have word : HasEnds ' ' ' ' " AS " := by decide
    exact column.before ((word.append (hasEnds_identifier name)).isPlain (by decide) (by decide))

end Sql

/-- Wherever it stands, an expression is written without clauses. -/
theorem Expr.inert (scope : SqlScope) (e : Expr) : e.TextHas scope Fragment.Inert :=
  (Sql.inert_rules scope).sql fun _ _ => trivial

end FluentQuery
