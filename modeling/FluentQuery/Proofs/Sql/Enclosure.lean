import FluentQuery.Proofs.Expr.Every
import FluentQuery.Proofs.Number.Text
import FluentQuery.Proofs.Sql.TextRules
import FluentQuery.Proofs.Sql.Tokens
import FluentQuery.Sql.Select

/-!
# Connectives stay in parentheses

The text of an expression matches its parentheses and has the words AND and OR inside of them only,
whatever names and texts are quoted in it.  The proof follows the way texts are put together:
`Spans` says at which depth of parentheses a text is read and at which it ends, and there is one
rule for fixed text in front of another text, after one, and between two.  Main statement:
`Expr.predicates_enclosed`, with what follows for predicates that are joined.
-/

namespace FluentQuery

set_option autoImplicit false

namespace Sql

/-- A text that ends outside quotes and leads from one depth of parentheses to another. -/
structure Spans (text : List Char) (n m : Nat) : Prop where
  outside : (Reader.between.run text).1.isOutside = true
  depth : depth n (tokens text) = some m

/-- A fixed text that something may follow at once. -/
structure Leads (text : String) (n m : Nat) : Prop where
  done : (Reader.between.run text.toList).1 = .between
  depth : Sql.depth n (tokens text.toList) = some m

/-- A fixed text that may follow something at once. -/
structure Trails (text : String) (n m : Nat) : Prop extends Spans text.toList n m where
  separated : text.toList.head?.any isSeparator = true

/-- A fixed text that may stand between others. -/
structure Links (text : String) (n m : Nat) : Prop extends Leads text n m where
  separated : text.toList.head?.any isSeparator = true

instance (text : List Char) (n m : Nat) : Decidable (Spans text n m) :=
  decidable_of_iff ((Reader.between.run text).1.isOutside = true ∧ depth n (tokens text) = some m)
    ⟨fun h => ⟨h.1, h.2⟩, fun h => ⟨h.outside, h.depth⟩⟩

instance (text : String) (n m : Nat) : Decidable (Leads text n m) :=
  decidable_of_iff ((Reader.between.run text.toList).1 = .between ∧
    depth n (tokens text.toList) = some m) ⟨fun h => ⟨h.1, h.2⟩, fun h => ⟨h.done, h.depth⟩⟩

instance (text : String) (n m : Nat) : Decidable (Trails text n m) :=
  decidable_of_iff (Spans text.toList n m ∧ text.toList.head?.any isSeparator = true)
    ⟨fun h => ⟨h.1, h.2⟩, fun h => ⟨h.toSpans, h.separated⟩⟩

instance (text : String) (n m : Nat) : Decidable (Links text n m) :=
  decidable_of_iff (Leads text n m ∧ text.toList.head?.any isSeparator = true)
    ⟨fun h => ⟨h.1, h.2⟩, fun h => ⟨h.toLeads, h.separated⟩⟩

namespace Spans

variable {front back : List Char} {text : String} {n m k l : Nat}

theorem nil (n : Nat) : Spans [] n n :=
  ⟨rfl, rfl⟩

theorem deepen (h : Spans front n m) : Spans front (n + 1) (m + 1) :=
  ⟨h.outside, depth_succ h.depth⟩

/-- A text may follow another if no word runs over the border. -/
theorem append (first : Spans front n m) (separated : back.head?.all isSeparator = true)
    (second : Spans back m k) : Spans (front ++ back) n k where
  outside := by
    rw [Reader.run_append]
    cases back with
    | nil => exact first.outside
    | cons c rest =>
      rw [Reader.run_separator first.outside separated]
      exact second.outside
  depth := by
    rw [tokens_append first.outside separated, depth_append, first.depth]
    exact second.depth

/-- Fixed text that ends a word may stand in front. -/
theorem lead (first : Leads text n m) (second : Spans back m k) :
    Spans (text.toList ++ back) n k where
  outside := by
    rw [Reader.run_append, first.done]
    exact second.outside
  depth := by
    rw [tokens_append_of_between first.done, depth_append, first.depth]
    exact second.depth

/-- What a text begins with does not depend on what comes after it. -/
theorem separated_of_any {cs : List Char} (h : cs.head?.any isSeparator = true)
    (rest : List Char) : (cs ++ rest).head?.all isSeparator = true := by
  cases cs with
  | nil => cases h
  | cons c others => exact h

/-- Fixed text that starts a word may stand behind. -/
theorem trail (first : Spans front n m) (last : Trails text m k) :
    Spans (front ++ text.toList) n k := by
  have separated := separated_of_any last.separated []
  rw [List.append_nil] at separated
  exact first.append separated last.toSpans

/-- Fixed text between two texts keeps their words apart. -/
theorem link (first : Spans front n m) (middle : Links text m k) (second : Spans back k l) :
    Spans (front ++ text.toList ++ back) n l := by
  rw [List.append_assoc]
  exact first.append (separated_of_any middle.separated back) (.lead middle.toLeads second)

end Spans

/-! ### Names, placeholders and constants -/

theorem spans_encode (quote : Char) (isQuote : Sql.isQuote quote = true) (text : List Char)
    (n : Nat) : Spans (Quote.encode quote text) n n where
  outside := by
    rw [Reader.run_encode quote isQuote]
    rfl
  depth := by
    rw [tokens_encode quote isQuote, depth_cons, (Token.isPlain_quoted quote text).depthAfter]
    rfl

/-- Names are quoted, so that no word of theirs is read. -/
theorem spans_identifier (name : String) (n : Nat) : Spans (quoteIdentifier name).toList n n := by
  rw [quoteIdentifier, String.toList_ofList]
  exact spans_encode '"' rfl name.toList n

theorem keeps_neutral : Reader.Keeps (fun c => isNeutral c = true) fun _ => True :=
  ⟨fun _ => id, fun _ _ => trivial, fun _ _ _ _ => trivial⟩

theorem keeps_harmless : Reader.Keeps (fun c => isHarmless c = true) IsMarked :=
  ⟨fun _ => isNeutral_of_isHarmless, fun _ harmless => .inr (List.forall_mem_singleton.2 harmless),
    fun _ _ => IsMarked.cons⟩

/-- Inside parentheses any words may stand. -/
theorem spans_neutral {text : List Char} (h : ∀ c ∈ text, isNeutral c = true) (n : Nat) :
    Spans text (n + 1) (n + 1) := by
  have begins : Reader.between.InWord fun _ => True := trivial
  have read := keeps_neutral.run begins h
  refine ⟨read.1.isOutside, depth_const fun t ht => ?_⟩
  apply Reader.Emitted.depthAfter fun read _ => Token.depthAfter_word_succ read.reverse n
  rcases List.mem_append.1 ht with before | last
  · exact read.2 t before
  · exact read.1.finish t last

/-- Harmless characters after a text that has been read to its end, or to a word that cannot become
a connective. -/
theorem spans_harmless {front back : List Char} {reader : Reader}
    (first : Reader.between.run front = (reader, [])) (marked : reader.InWord IsMarked)
    (h : ∀ c ∈ back, isHarmless c = true) (n : Nat) : Spans (front ++ back) n n := by
  have read := keeps_harmless.run marked h
  constructor
  · rw [Reader.run_append, first]
    exact read.1.isOutside
  · rw [tokens, Reader.run_append, first]
    refine depth_const fun t ht => ?_
    apply Reader.Emitted.depthAfter fun read marked => (isPlain_of_isMarked marked).depthAfter n
    rcases List.mem_append.1 ht with before | last
    · exact read.2 t before
    · exact read.1.finish t last

theorem isHarmless_of_isDigit {c : Char} (h : c.isDigit = true) : isHarmless c = true := by
  have digits : ∀ n < 58, 48 ≤ n → isHarmless (Char.ofNat n) = true := by decide
  simp only [Char.isDigit, Bool.and_eq_true, decide_eq_true_eq] at h
  have code := digits c.toNat (Nat.lt_succ_of_le h.2) h.1
  rwa [Char.ofNat_toNat] at code

theorem isHarmless_of_isNumeral {c : Char} (h : isNumeral c = true) : isHarmless c = true := by
  rcases Bool.or_eq_true_iff.1 h with digit | other
  · exact isHarmless_of_isDigit digit
  · have marks : ['.', '-', '+', 'e', 'n', 'u', 'l'].all isHarmless = true := by decide
    exact List.all_eq_true.1 marks c (List.contains_iff_mem.1 other)

/-- The digits of a number make no word. -/
theorem spans_numeral {s : String} (h : Numeral s) (n : Nat) : Spans s.toList n n := by
  have nothing : Reader.between.run [] = (.between, []) := rfl
  exact spans_harmless nothing trivial (fun c hc => isHarmless_of_isNumeral (h c hc)) n

end Sql

namespace Expr

/-- A letter, perhaps not an ASCII one, a digit or an underscore. -/
def isIdentifierChar (c : Char) : Bool :=
  c.isAlphanum || c = '_' || 128 ≤ c.toNat

/-- A name that is made of such characters only. -/
def IsIdentifier (name : String) : Prop :=
  ∀ c ∈ name.toList, isIdentifierChar c = true

/-- Parameters have such names, and constants are no lists and no objects. -/
def Printable : Expr → Prop
  | constant (.arr _) | constant (.obj _) => False
  | param p property _ => IsIdentifier (placeholderName p property)
  | booleanParam p property => IsIdentifier (booleanPlaceholderName p property)
  | _ => True

end Expr

namespace Fragment

/-- What is read in a fragment. -/
def tokens (d : Dialect) (f : Fragment) : List Sql.Token :=
  Sql.tokens (f.chars d)

/-- A fragment that leads from one depth of parentheses to another. -/
def Spans (d : Dialect) (f : Fragment) (n m : Nat) : Prop :=
  Sql.Spans (f.chars d) n m

namespace Spans

open Sql

variable {d : Dialect} {f g : Fragment} {s : String} {n m k l : Nat}

theorem deepen (h : f.Spans d n m) : f.Spans d (n + 1) (m + 1) :=
  Sql.Spans.deepen h

theorem depth (h : f.Spans d n m) : Sql.depth n (f.tokens d) = some m :=
  Sql.Spans.depth h

theorem text (h : Sql.Spans s.toList n m) : (Fragment.text s).Spans d n m := by
  rwa [Spans, chars_text]

theorem lead (first : Leads s n m) (second : f.Spans d m k) :
    (Fragment.text s ++ f).Spans d n k := by
  rw [Spans, chars_append, chars_text]
  exact .lead first second

theorem trail (first : f.Spans d n m) (last : Trails s m k) :
    (f ++ Fragment.text s).Spans d n k := by
  rw [Spans, chars_append, chars_text]
  exact Sql.Spans.trail first last

theorem link (first : f.Spans d n m) (middle : Links s m k) (second : g.Spans d k l) :
    (f ++ Fragment.text s ++ g).Spans d n l := by
  rw [Spans, chars_append, chars_append, chars_text]
  exact Sql.Spans.link first middle second

/-- In parentheses, perhaps with a word in front. -/
theorem enclose {word : String} (opens : Leads word 0 1) (h : f.Spans d 0 0) :
    (Fragment.text word ++ f ++ Fragment.text ")").Spans d 0 0 :=
  (lead opens h.deepen).trail (by decide)

theorem separated (links : Links s n n) {fs : List Fragment} (h : ∀ f ∈ fs, f.Spans d n n) :
    (Fragment.separated s fs).Spans d n n := by
  fun_induction Fragment.separated s fs with
  | case1 => exact .nil n
  | case2 f => exact h f (List.mem_singleton_self f)
  | case3 f rest _ ih =>
    rw [List.forall_mem_cons] at h
    exact h.1.link links (ih h.2)

end Spans

end Fragment

namespace Sql

open Fragment

variable {d : Dialect} {f g : Fragment}

theorem isNeutral_of_isIdentifierChar {c : Char} (h : Expr.isIdentifierChar c = true) :
    isNeutral c = true := by
  have table : ['"', '\'', '(', ')'].any Expr.isIdentifierChar = false := by decide
  have other : c ∉ ['"', '\'', '(', ')'] := by
    intro mem
    rw [List.any_eq_true.2 ⟨c, mem, h⟩] at table
    cases table
  simp only [List.mem_cons, List.not_mem_nil, or_false, not_or] at other
  simp [isNeutral, isQuote, other]

theorem isWordCharacter_of_isIdentifierChar {c : Char} (h : Expr.isIdentifierChar c = true) :
    isWordCharacter c = true := by
  simp only [Expr.isIdentifierChar, Bool.or_eq_true] at h
  simp only [isWordCharacter, Bool.or_eq_true]
  tauto

/-- The placeholder of a parameter, of which a list or an index says more. -/
theorem spans_placeholder {name suffix : String} (named : Expr.IsIdentifier name)
    (harmless : ∀ c ∈ suffix.toList, isHarmless c = true) :
    (Fragment.placeholder (name ++ suffix)).Spans d 0 0 := by
  rw [Fragment.Spans, chars_placeholder]
  cases d with
  | postgres =>
    have inside : Spans (name ++ suffix).toList 1 1 := by
      refine spans_neutral (fun c hc => ?_) 0
      rw [String.toList_append] at hc
      rcases List.mem_append.1 hc with hc | hc
      · exact isNeutral_of_isIdentifierChar (named c hc)
      · exact isNeutral_of_isHarmless (harmless c hc)
    have opens : Leads "$(" 0 1 := by decide
    rw [Dialect.placeholder, String.toList_append, String.toList_append]
    exact (Spans.lead opens inside).trail (by decide)
  | sqlite =>
    have word : Reader.between.run ('@' :: name.toList) =
        (.inWord (name.toList.reverse ++ ['@']), []) := by
      have characters c (hc : c ∈ name.toList) := isWordCharacter_of_isIdentifierChar (named c hc)
      rw [Reader.run_cons]
      show ((Reader.inWord ['@']).run name.toList) = _
      exact Reader.run_word ['@'] characters
    have marked : IsMarked (name.toList.reverse ++ ['@']) := .inl (by simp)
    rw [Dialect.placeholder, String.toList_append, String.toList_append, ← List.append_assoc]
    exact spans_harmless word marked harmless 0

theorem spans_plain_placeholder {name : String} (named : Expr.IsIdentifier name) :
    (Fragment.placeholder name).Spans d 0 0 := by
  have nothing : ∀ c ∈ "".toList, isHarmless c = true := by simp
  have whole := spans_placeholder (d := d) named nothing
  rwa [String.append_empty] at whole

theorem spans_parameterName {p property : String} (index : Option Int)
    (named : Expr.IsIdentifier (Expr.placeholderName p property)) :
    (Fragment.placeholder (parameterName p property index)).Spans d 0 0 := by
  cases index with
  | none => exact spans_plain_placeholder named
  | some i =>
    have number : ∀ c ∈ ("_" ++ toString i).toList, isHarmless c = true := by
      intro c hc
      rw [String.toList_append] at hc
      rcases List.mem_append.1 hc with underscore | digit
      · rw [List.mem_singleton.1 underscore]
        rfl
      · exact isHarmless_of_isNumeral (Numeral.of_int i c digit)
    have whole := spans_placeholder (d := d) named number
    rwa [← String.append_assoc] at whole

/-- Numbers, truth values and null are harmless, and texts are quoted. -/
theorem spans_constant {v : Json} (printable : (Expr.constant v).Printable) :
    (Fragment.text (constant v)).Spans d 0 0 := by
  apply Fragment.Spans.text
  cases v with
  | null => decide
  | bool b => cases b <;> decide
  | int n => exact spans_numeral (Numeral.of_int n) 0
  | double x => exact spans_numeral (Numeral.of_double x) 0
  | str s =>
    rw [constant, quoteString, String.toList_ofList]
    exact spans_encode '\'' rfl s.toList 0
  | arr | obj => exact printable.elim

/-! ### Operators -/

/-- A comparison stays at the depth that it is read at, the test for null among its forms. -/
theorem spans_comparison (op : ComparisonOp) (left : f.Spans d 0 0) (right : g.Spans d 0 0) :
    (comparison d op f g).Spans d 0 0 := by
  have plain := left.link (s := " " ++ op.sql ++ " ") (k := 0) (by cases op <;> decide) right
  have null (test : String) (trails : Trails test 0 0) :
      Fragment.Spans d (if g.render d == "NULL" then f ++ text test
        else if f.render d == "NULL" then g ++ text test
        else f ++ text (" " ++ op.sql ++ " ") ++ g) 0 0 := by
    split
    · exact left.trail trails
    split
    · exact right.trail trails
    · exact plain
  cases op with
  | eq => exact null " IS NULL" (by decide)
  | neq => exact null " IS NOT NULL" (by decide)
  | gt | gte | lt | lte => exact plain

/-- A negation stays at its depth, with parentheses and without. -/
theorem spans_negation (h : f.Spans d 0 0) : (negation d f).Spans d 0 0 := by
  unfold negation
  split
  · exact .lead (by decide) h
  · exact .enclose (by decide) h

theorem spans_list {fs : List Fragment} (h : ∀ f ∈ fs, f.Spans d 0 0) :
    (Fragment.separated ", " fs).Spans d 0 0 :=
  .separated (by decide) h

/-- The items of a test for membership are one level deeper. -/
theorem spans_memberOf (negated : Bool) (value : f.Spans d 0 0) {items : List Fragment}
    (h : ∀ f ∈ items, f.Spans d 0 0) : (memberOf negated f items).Spans d 0 0 := by
  unfold memberOf
  split
  · apply Fragment.Spans.text
    cases negated <;> decide
  · have opens : Links (if negated then " NOT IN (" else " IN (") 0 1 := by
      cases negated <;> decide
    exact (value.link opens (spans_list h).deepen).trail (by decide)

theorem spans_textTest (test : TextTest) (object : f.Spans d 0 0) (argument : g.Spans d 0 0) :
    (test.sql f g).Spans d 0 0 := by
  have pattern := object.link (s := " LIKE ") (k := 0) (by decide) argument
  have suffix := object.link (s := " LIKE '%' || ") (k := 0) (by decide) argument
  cases test with
  | startsWith => exact pattern.trail (by decide)
  | endsWith => exact suffix
  | includes | contains => exact suffix.trail (by decide)

theorem spans_caseInsensitive (test : CaseInsensitiveTest) (left : f.Spans d 0 0)
    (right : g.Spans d 0 0) : (test.sql f g).Spans d 0 0 := by
  cases test with
  | equals => exact left.link (by decide) right
  | startsWith => exact spans_textTest .startsWith left right
  | endsWith => exact spans_textTest .endsWith left right
  | contains => exact spans_textTest .contains left right

theorem spans_case {clauses : List Fragment} (h : ∀ f ∈ clauses, f.Spans d 0 0) :
    (text "CASE " ++ separated " " clauses).Spans d 0 0 :=
  .lead (by decide) (.separated (by decide) h)

/-- Groups and keys of a window are one level deeper. -/
theorem spans_window (function : WindowFunction) {partitions orders : List Fragment}
    (partition : ∀ f ∈ partitions, f.Spans d 0 0) (order : ∀ f ∈ orders, f.Spans d 0 0) :
    (window function partitions orders).Spans d 0 0 := by
  have keys : (text "ORDER BY " ++ separated ", " orders).Spans d 0 0 :=
    .lead (by decide) (spans_list order)
  have groups : (text "PARTITION BY " ++ separated ", " partitions).Spans d 0 0 :=
    .lead (by decide) (spans_list partition)
  refine .enclose (by cases function <;> decide) (.separated (by decide) fun f mem => ?_)
  rcases List.mem_append.1 mem with first | last
  · split at first
    · cases first
    · rw [List.mem_singleton.1 first]
      exact groups
  · rw [List.mem_singleton.1 last]
    exact keys

end Sql

/-! ### Expressions -/

namespace Sql

open Fragment

/-- Every form of text closes its parentheses if its parts do, and connects inside of them only. -/
theorem spans_rules (scope : SqlScope) :
    TextRules scope Expr.Printable fun f => f.Spans scope.dialect 0 0 where
  column name := .text (spans_identifier name 0)
  qualifiedColumn row name := by
    apply Fragment.Spans.text
    rw [String.toList_append, String.toList_append]
    exact (spans_identifier row 0).link (by decide) (spans_identifier name 0)
  excludedColumn name := by
    apply Fragment.Spans.text
    rw [String.toList_append]
    exact .lead (by decide) (spans_identifier name 0)
  star := .text (by decide)
  qualifiedStar row := by
    apply Fragment.Spans.text
    rw [String.toList_append]
    exact (spans_identifier row 0).trail (by decide)
  constant _ printable := spans_constant printable
  truth value := .text (by cases value <;> decide)
  param _ _ index named := spans_parameterName index named
  item _ _ _ _ named _ i _ := spans_parameterName (some i) named
  booleanParam _ _ named := spans_plain_placeholder named
  arithmetic op _ _ left right := by
    have opened := left.deepen.lead (s := "(") (n := 0) (by decide)
    exact (opened.link (by cases op <;> decide) right.deepen).trail (by decide)
  logical op _ _ left right := by
    -- The connective is one parenthesis further inside, where it does not count.
    have opened := left.deepen.lead (s := "(") (n := 0) (by decide)
    exact (opened.link (by cases op <;> decide) right.deepen).trail (by decide)
  concat _ _ left right := left.link (by decide) right
  stringMethod method _ operand := operand.enclose (by cases method <;> decide)
  aggregate function _ operand := operand.enclose (by cases function <;> decide)
  aggregateAll function := .text (by cases function <;> decide)
  whenClause _ _ condition result :=
    (condition.lead (s := "WHEN ") (by decide)).link (by decide) result
  caseWhen _ clauses := (spans_case clauses).trail (by decide)
  caseElse _ _ clauses result :=
    ((spans_case clauses).link (by decide) result).trail (by decide)
  list _ parts := spans_list parts
  coalesce _ parts := (spans_list parts).enclose (by decide)
  order _ descending key := key.trail (by cases descending <;> decide)
  window function _ _ partition order := spans_window function partition order
  comparison op _ _ left right := spans_comparison op left right
  negation _ operand := spans_negation operand
  textTest test _ _ object argument := spans_textTest test object argument
  caseInsensitive test _ _ left right :=
    spans_caseInsensitive test (left.enclose (by decide)) (right.enclose (by decide))
  memberOf negated _ _ value items := spans_memberOf negated value items
  isNull _ negated operand := operand.trail (by cases negated <;> decide)
  truthValue _ condition := (condition.lead (s := "CASE WHEN ") (by decide)).trail (by decide)
  named f name column := by
    rw [Fragment.Spans, chars_append, chars_text, String.toList_append, ← List.append_assoc]
    exact Sql.Spans.link column (by decide) (spans_identifier name 0)

end Sql

/-- Wherever it stands, the text of an expression closes its parentheses. -/
theorem Expr.spans {scope : SqlScope} {e : Expr} (printable : e.Every Printable) :
    e.TextHas scope fun f => f.Spans scope.dialect 0 0 :=
  (Sql.spans_rules scope).sql printable

/-! ### Joined predicates -/

/-- Joined with AND, conditions are what is found again between the words AND that are outside of
parentheses, and no OR is outside. -/
structure Joined (d : Dialect) (conditions : List Fragment) : Prop where
  ands : Sql.terms Sql.Token.isAnd 0 ((Fragment.separated " AND " conditions).tokens d) =
    conditions.map (Fragment.tokens d)
  ors : Sql.terms Sql.Token.isOr 0 ((Fragment.separated " AND " conditions).tokens d) =
    [(Fragment.separated " AND " conditions).tokens d]

namespace Sql

open Fragment

variable {d : Dialect}

theorem isConnective_of_isAnd (t : Token) (h : t.isAnd = true) : t.isConnective = true := by
  rw [Token.isConnective, h, Bool.true_or]

theorem isConnective_of_isOr (t : Token) (h : t.isOr = true) : t.isConnective = true := by
  rw [Token.isConnective, h, Bool.or_true]

/-- Between conditions the connective is a token of its own. -/
theorem tokens_connected {f : Fragment} (h : f.Spans d 0 0) (g : Fragment) :
    (f ++ text " AND " ++ g).tokens d =
      f.tokens d ++ .word ['A', 'N', 'D'] :: g.tokens d := by
  have done : (Reader.between.run " AND ".toList).1 = .between := by decide
  rw [Fragment.tokens, chars_append, chars_append, chars_text, List.append_assoc,
    tokens_append h.outside rfl, tokens_append_of_between done]
  rfl

/-- Conditions that are joined by AND are apart from each other at the outermost level. -/
theorem joined_of_spans {conditions : List Fragment} (h : ∀ f ∈ conditions, f.Spans d 0 0)
    (nonempty : conditions ≠ []) : Joined d conditions := by
  fun_induction separated " AND " conditions with
  | case1 => exact absurd rfl nonempty
  | case2 f =>
    have depth := (h f (List.mem_singleton_self f)).depth
    exact ⟨terms_of_depth isConnective_of_isAnd depth, terms_of_depth isConnective_of_isOr depth⟩
  | case3 f rest others ih =>
    rw [List.forall_mem_cons] at h
    have later := ih h.2 others
    have whole : (separated " AND " (f :: rest)).tokens d =
        f.tokens d ++ .word ['A', 'N', 'D'] :: (separated " AND " rest).tokens d := by
      rw [separated]
      · exact tokens_connected h.1 _
      · exact others
    constructor
    · have cuts : Token.isAnd (.word ['A', 'N', 'D']) = true := rfl
      rw [whole, terms_append_cut isConnective_of_isAnd h.1.depth cuts, later.ands]
      rfl
    · rw [whole, terms_append isConnective_of_isOr h.1.depth, terms]
      show prepend _ (prepend _ (terms _ 0 _)) = _
      rw [later.ors]
      rfl

/-- A condition that asks for rows without another. -/
def refuting (condition : Fragment) : Fragment :=
  text "NOT (" ++ condition ++ text ")"

/-- The conditions of a statement each stay in their parentheses. -/
theorem spans_conditions {scope : SqlScope} {predicates : List Expr}
    (printable : ∀ e ∈ predicates, e.Every Expr.Printable) :
    Returns (fun fs => ∀ f ∈ fs, f.Spans scope.dialect 0 0)
      (SelectChain.conditions scope predicates) :=
  (returns_forall_sqlList fun e he => Expr.spans (printable e he) _).mapError

/-- A conjunction is its two parts in parentheses, joined like conditions. -/
theorem tokens_conj {scope : SqlScope} {l r : Expr} {f : Fragment} (left : l.Every Expr.Printable)
    (right : r.Every Expr.Printable)
    (written : (Expr.logical .and l r).sql scope .predicate = .ok f) :
    ∃ fl fr, l.sql scope .predicate = .ok fl ∧ r.sql scope .predicate = .ok fr ∧
      f.tokens scope.dialect =
        .opening :: (separated " AND " [fl, fr]).tokens scope.dialect ++ [.closing] ∧
      Joined scope.dialect [fl, fr] := by
  unfold Expr.sql at written
  obtain ⟨fr, second, written⟩ := outcome_bind_eq_ok.1 written
  obtain ⟨fl, first, written⟩ := outcome_bind_eq_ok.1 written
  cases written
  have left' := Expr.spans left _ fl first
  have right' := Expr.spans right _ fr second
  have parts : ∀ f ∈ [fl, fr], f.Spans scope.dialect 0 0 := by simp [left', right']
  have joined := joined_of_spans parts (List.cons_ne_nil fl [fr])
  refine ⟨fl, fr, first, second, ?_, joined⟩
  have inside : (separated " AND " [fl, fr]).Spans scope.dialect 1 1 :=
    left'.deepen.link (by decide) right'.deepen
  have shape : text "(" ++ fl ++ text LogicalOp.and.sql ++ fr ++ text ")" =
      text "(" ++ (separated " AND " [fl, fr] ++ text ")") := by
    simp [separated, LogicalOp.sql]
  have opens : (Reader.between.run "(".toList).1 = .between := by decide
  rw [shape, Fragment.tokens, chars_append, chars_append, chars_text, chars_text,
    tokens_append_of_between opens, tokens_append inside.outside rfl]
  rfl

end Sql

open Fragment Sql in
/-- In the text of a predicate, outside of quotes, the words AND and OR are inside of parentheses
only.  So the conditions of a WHERE clause, of which the last may be refutations, are apart from
each other: the clause is cut at its AND into these conditions again, and no OR cuts it.  If a
predicate and a filter are made one predicate, they are joined in this way in parentheses. -/
theorem Expr.predicates_enclosed (scope : SqlScope) :
    (∀ (e : Expr) f, e.Every Printable → e.sql scope .predicate = .ok f →
      Enclosed (f.tokens scope.dialect)) ∧
    (∀ (predicates refuted : List Expr) fs gs, (∀ e ∈ predicates ++ refuted, e.Every Printable) →
      SelectChain.conditions scope predicates = .ok fs →
      SelectChain.conditions scope refuted = .ok gs → fs ++ gs ≠ [] →
      SelectChain.whereOf (fs ++ gs.map refuting) =
          [text "WHERE " ++ separated " AND " (fs ++ gs.map refuting)] ∧
        Joined scope.dialect (fs ++ gs.map refuting)) ∧
    (∀ (l r : Expr) f, l ≠ absent → r ≠ absent → l.Every Printable → r.Every Printable →
      (l.conj r).sql scope .predicate = .ok f →
      ∃ fl fr, l.sql scope .predicate = .ok fl ∧ r.sql scope .predicate = .ok fr ∧
        f.tokens scope.dialect =
          .opening :: (separated " AND " [fl, fr]).tokens scope.dialect ++ [.closing] ∧
        Joined scope.dialect [fl, fr]) := by
  refine ⟨?_, ?_, ?_⟩
  · intro e f printable written
    exact enclosed_of_depth (spans printable _ f written).depth
  · intro predicates refuted fs gs printable written writtenRefuted nonempty
    rw [List.forall_mem_append] at printable
    have asked := spans_conditions printable.1 fs written
    have refused := spans_conditions printable.2 gs writtenRefuted
    have some : fs ++ gs.map refuting ≠ [] := by simpa using nonempty
    refine ⟨if_neg (by simpa using nonempty), joined_of_spans ?_ some⟩
    rw [List.forall_mem_append, List.forall_mem_map]
    exact ⟨asked, fun g mem => (refused g mem).enclose (by decide)⟩
  · intro l r f presentLeft presentRight left right written
    rw [conj_eq_and presentLeft presentRight] at written
    exact tokens_conj left right written

open Fragment Sql in
/-- A choice over a column and a parameter that are named like connectives stays apart from the
filter of a tenant. -/
theorem Expr.predicates_enclosed_tenant :
    let scope : SqlScope := { dialect := .postgres, params := .obj [("or", .int 1)] }
    let choice : Expr := .logical .or
      (.comparison .eq (.column "a\" OR \"b" "" none) (.param "params" "or" none))
      (.booleanColumn "and" "" none)
    let tenant : Expr := .comparison .eq (.column "tenant" "" none) (.constant (.str "' OR '"))
    ∃ f g both, SelectChain.conditions scope [choice, tenant] = .ok [f, g] ∧
      (choice.conj tenant).sql scope .predicate = .ok both ∧
      Enclosed (both.tokens scope.dialect) ∧ Joined scope.dialect [f, g] ∧
      both.tokens scope.dialect =
        .opening :: (separated " AND " [f, g]).tokens scope.dialect ++ [.closing] := by
  intro scope choice tenant
  have chosen : choice.Every Printable := by
    simp [choice, Printable, IsIdentifier, placeholderName, leafName]
    decide
  have filtered : tenant.Every Printable := by
    simp [tenant, Printable]
  obtain ⟨enclosed, conditions, conjunction⟩ := predicates_enclosed scope
  obtain ⟨both, written⟩ : ∃ both, (choice.conj tenant).sql scope .predicate = .ok both := ⟨_, rfl⟩
  obtain ⟨f, g, first, second, shape, -⟩ :=
    conjunction choice tenant both nofun nofun chosen filtered written
  have listed : SelectChain.conditions scope [choice, tenant] = .ok [f, g] := by
    simp [SelectChain.conditions, sqlList, first, second, unplaced, Except.mapError, bind,
      Except.bind, pure, Except.pure]
  have printable : ∀ e ∈ [choice, tenant] ++ [], e.Every Printable := by simp [chosen, filtered]
  have joined := (conditions [choice, tenant] [] [f, g] [] printable listed rfl nofun).2
  refine ⟨f, g, both, listed, written, ?_, joined, shape⟩
  exact enclosed _ both ((every_logical ..).2 ⟨trivial, chosen, filtered⟩) written

end FluentQuery
