import FluentQuery.Proofs.Sql.Meaning

/-!
# Reading the text of an expression

A text is read from the left: words of fixed spelling, quoted names and placeholders.  The words are
chosen so that none is the beginning of another, so a text never has two first words
(`Word.read_spell`).  A reader gives the value of what it has read and the text after it, in three
levels: units, concatenations of units, and tests of concatenations.
-/

namespace FluentQuery

set_option autoImplicit false

/-! ### Words -/

/-- A piece of text of fixed spelling. -/
inductive Word where
  | opening | closing | comma
  | null | minusOne | star | excluded
  | truth (value : Bool)
  | negation
  | arithmetic (op : ArithmeticOp)
  | logical (op : LogicalOp)
  | compare (op : ComparisonOp)
  | bars | percent | like
  | isNull (negated : Bool)
  | isIn (negated : Bool)
  | caseWhen | when | thenResult | elseResult | endCase
  | convert (method : StringMethod)
  | coalesce
  | aggregate (function : AggregateFunction)
  | window (function : WindowFunction) (partitioned : Bool)
  | orderBy
  | direction (descending : Bool)
  | named
deriving DecidableEq

namespace Word

/-- How a word is written, with the blanks that belong to it. -/
def text : Word → String
  | opening => "("
  | closing => ")"
  | comma => ", "
  | null => "NULL"
  | minusOne => "-1"
  | star => "*"
  | excluded => "excluded."
  | truth value => if value then "TRUE" else "FALSE"
  | negation => "NOT "
  | arithmetic op => " " ++ op.name ++ " "
  | logical op => op.sql
  | compare op => " " ++ op.sql ++ " "
  | bars => " || "
  | percent => "'%'"
  | like => " LIKE "
  | isNull negated => if negated then " IS NOT NULL" else " IS NULL"
  | isIn negated => if negated then " NOT IN (" else " IN ("
  | caseWhen => "CASE WHEN "
  | when => " WHEN "
  | thenResult => " THEN "
  | elseResult => " ELSE "
  | endCase => " END"
  | convert method => method.sql ++ "("
  | coalesce => "COALESCE("
  | aggregate function => function.sql ++ "("
  | window function partitioned =>
    function.sql ++ "() OVER (" ++ (if partitioned then "PARTITION BY " else "ORDER BY ")
  | orderBy => " ORDER BY "
  | direction descending => if descending then " DESC" else " ASC"
  | named => " AS "

/-- The characters of a word. -/
def spell (w : Word) : List Char :=
  w.text.toList

/-- All words. -/
def all : List Word :=
  [opening, closing, comma, null, minusOne, star, excluded, negation, bars, percent, like, caseWhen,
    when, thenResult, elseResult, endCase, coalesce, orderBy, named] ++
  [true, false].flatMap (fun b => [truth b, isNull b, isIn b, direction b]) ++
  ArithmeticOp.all.map arithmetic ++ [LogicalOp.and, .or].map logical ++
  ComparisonOp.all.map compare ++ [StringMethod.toLowerCase, .toUpperCase].map convert ++
  AggregateFunction.all.map aggregate ++
  WindowFunction.all.flatMap fun function => [window function true, window function false]

theorem mem_all (w : Word) : w ∈ all := by
  cases w with
  | truth b | isNull b | isIn b | direction b => cases b <;> decide
  | arithmetic op => cases op <;> decide
  | logical op => cases op <;> decide
  | compare op => cases op <;> decide
  | convert method => cases method <;> decide
  | aggregate function => cases function <;> decide
  | window function partitioned => cases function <;> cases partitioned <;> decide
  | _ => decide

/-- No word is the beginning of another. -/
theorem eq_of_isPrefixOf : ∀ w ∈ all, ∀ w' ∈ all, w.spell.isPrefixOf w'.spell = true → w = w' := by
  decide +kernel

/-- The first word of a text, and what comes after it. -/
def read (cs : List Char) : Option (Word × List Char) :=
  (all.find? fun w => w.spell.isPrefixOf cs).map fun w => (w, cs.drop w.spell.length)

/-- A word is read back, whatever comes after it. -/
@[simp] theorem read_spell (w : Word) (k : List Char) : read (w.spell ++ k) = some (w, k) := by
  have starts : w.spell.isPrefixOf (w.spell ++ k) = true :=
    List.isPrefixOf_iff_prefix.2 (List.prefix_append _ _)
  have only : all.find? (fun w' => w'.spell.isPrefixOf (w.spell ++ k)) = some w := by
    cases found : all.find? fun w' => w'.spell.isPrefixOf (w.spell ++ k) with
    | none => exact absurd starts (List.find?_eq_none.1 found w (mem_all w))
    | some w' =>
      have holds : w'.spell.isPrefixOf (w.spell ++ k) = true := by simpa using List.find?_some found
      have begins := List.isPrefixOf_iff_prefix.1 holds
      rcases List.prefix_or_prefix_of_prefix begins (List.prefix_append _ _) with shorter | longer
      · rw [eq_of_isPrefixOf w' (mem_all w') w (mem_all w) (List.isPrefixOf_iff_prefix.2 shorter)]
      · rw [← eq_of_isPrefixOf w (mem_all w) w' (mem_all w') (List.isPrefixOf_iff_prefix.2 longer)]
  rw [read, only, Option.map_some, List.drop_left]

/-- A word that is read is the beginning of the text. -/
theorem eq_spell_of_read {cs rest : List Char} {w : Word} (h : read cs = some (w, rest)) :
    cs = w.spell ++ rest := by
  obtain ⟨w', found, same⟩ := Option.map_eq_some_iff.1 h
  obtain ⟨rfl, rfl⟩ := Prod.mk.inj same
  have holds : w'.spell.isPrefixOf cs = true := by simpa using List.find?_some found
  obtain ⟨after, rfl⟩ := List.isPrefixOf_iff_prefix.1 holds
  rw [List.drop_left]

/-- A word that ends an expression. -/
def closes : Word → Bool
  | closing | comma | arithmetic _ | logical _ | when | thenResult | elseResult | endCase | orderBy
  | direction _ | named => true
  | _ => false

/-- A word that can come after a value. -/
def follows : Word → Bool
  | bars | like | compare _ | isNull _ | isIn _ => true
  | w => w.closes

theorem follows_of_closes {w : Word} (h : w.closes = true) : w.follows = true := by
  cases w <;> first | rfl | exact h

/-- The first character of a word. -/
def first (w : Word) : Char :=
  w.spell.headD ' '

/-- Words are not empty and start neither as names nor as placeholders do; those that follow a value
end its name. -/
theorem first_char : ∀ w ∈ all, w.spell ≠ [] ∧ w.first ≠ '"' ∧ w.first ≠ '$' ∧ w.first ≠ '@' ∧
    (w.follows = true → Expr.isNameChar w.first = false) := by
  decide +kernel

theorem spell_eq_cons (w : Word) : ∃ rest, w.spell = w.first :: rest := by
  cases h : w.spell with
  | nil => exact absurd h (first_char w w.mem_all).1
  | cons c rest => exact ⟨rest, by rw [first, h]; rfl⟩

end Word

/-! ### Names and placeholders -/

namespace Quote

/-- A doubled text is read up to its end. -/
theorem decodeBody_double (quote : Char) (text : List Char) {k : List Char}
    (ends : k.head? ≠ some quote) :
    decodeBody quote (double quote text ++ quote :: k) = some (text, k) := by
  induction text with
  | nil =>
    cases k with
    | nil => simp [double, decodeBody]
    | cons c rest =>
      have other : c ≠ quote := fun same => ends (by rw [same]; rfl)
      simp [double, decodeBody, other]
  | cons c text ih =>
    by_cases same : c = quote
    · subst same
      have doubled : double c (c :: text) = c :: c :: double c text := by simp [double]
      simp [doubled, decodeBody, ih]
    · have single : double quote (c :: text) = c :: double quote text := by simp [double, same]
      rw [single, List.cons_append, decodeBody.eq_def]
      simp only [if_neg same, ih, Option.map_some]

/-- A quoted text is read back, if no quote comes after it. -/
theorem decode_encode (quote : Char) (text : List Char) {k : List Char}
    (ends : k.head? ≠ some quote) :
    decode quote (encode quote text ++ k) = some (text, k) := by
  have body := decodeBody_double quote text ends
  simp only [encode, List.cons_append, List.append_assoc, List.nil_append]
  rw [decode, if_pos rfl, body]

end Quote

/-- What can come after a name or a placeholder. -/
def Ends (k : List Char) : Prop :=
  ∀ c, k.head? = some c → Expr.isNameChar c = false

theorem ends_of_follows {w : Word} (h : w.follows = true) (rest : List Char) :
    Ends (w.spell ++ rest) := by
  obtain ⟨-, -, -, -, blank⟩ := w.first_char w.mem_all
  obtain ⟨more, spelt⟩ := w.spell_eq_cons
  intro c starts
  rw [spelt] at starts
  cases starts
  exact blank h

theorem ends_nil : Ends [] := by
  rintro c ⟨⟩

theorem Ends.head_ne {k : List Char} (h : Ends k) {c : Char} (name : Expr.isNameChar c = true) :
    k.head? ≠ some c := by
  intro starts
  rw [h c starts] at name
  cases name

namespace Sql

variable {V : Type} (I : Interpretation V) (d : Dialect)

/-- A column, qualified or not, or all columns of a row. -/
def readName (cs : List Char) : Option (V × List Char) :=
  match Quote.decode '"' cs with
  | some (first, '.' :: '*' :: rest) => some (I.wholeRow (some (String.ofList first)), rest)
  | some (first, '.' :: rest) =>
    (Quote.decode '"' rest).map fun (second, rest) =>
      (I.column (some (String.ofList first)) (String.ofList second), rest)
  | some (name, rest) => some (I.column none (String.ofList name), rest)
  | none => none

/-- A placeholder in a dialect. -/
def readPlaceholder (cs : List Char) : Option (V × List Char) :=
  match d, cs with
  | .postgres, '$' :: '(' :: rest =>
    match rest.dropWhile Expr.isNameChar with
    | ')' :: after => some (I.placeholder (String.ofList (rest.takeWhile Expr.isNameChar)), after)
    | _ => none
  | .sqlite, '@' :: rest =>
    some (I.placeholder (String.ofList (rest.takeWhile Expr.isNameChar)),
      rest.dropWhile Expr.isNameChar)
  | _, _ => none

/-- What a word stands for by itself. -/
def readWord (cs : List Char) : Option (V × List Char) :=
  match Word.read cs with
  | some (.null, rest) => some (I.constant .null, rest)
  | some (.minusOne, rest) => some (I.constant (.int (-1)), rest)
  | some (.truth value, rest) => some (I.truth value, rest)
  | some (.star, rest) => some (I.wholeRow none, rest)
  | some (.excluded, rest) =>
    (Quote.decode '"' rest).map fun (name, rest) => (I.excluded (String.ofList name), rest)
  | _ => none

/-- A value that has no parts. -/
def readAtom (cs : List Char) : Option (V × List Char) :=
  match cs with
  | '"' :: _ => readName I cs
  | '$' :: _ | '@' :: _ => readPlaceholder I d cs
  | _ => readWord I cs

/-! ### Units, concatenations and tests -/

/-- The text after a word that has to come next. -/
def expect (w : Word) (cs : List Char) : Option (List Char) :=
  match Word.read cs with
  | some (w', rest) => if w' = w then some rest else none
  | none => none

section

variable {α : Type} (item : List Char → Option (α × List Char))

/-- Items with commas between them, up to a last word. -/
def readItems (last : Word) : Nat → List Char → Option (List α × List Char)
  | 0, _ => none
  | n + 1, cs => do
    let (a, rest) ← item cs
    match Word.read rest with
    | some (w, rest) =>
      if w = .comma then do
        let (as, rest) ← readItems last n rest
        some (a :: as, rest)
      else if w = last then some ([a], rest)
      else none
    | none => none

/-- Units with bars between them; bars before a percent sign belong to a pattern. -/
def readChain : Nat → List Char → Option (List α × List Char)
  | 0, _ => none
  | n + 1, cs => do
    let (a, rest) ← item cs
    match Word.read rest with
    | some (.bars, more) =>
      match Word.read more with
      | some (.percent, _) => some ([a], rest)
      | _ => do
        let (as, rest) ← readChain n more
        some (a :: as, rest)
    | _ => some ([a], rest)

end

section

variable (expr : List Char → Option (V × List Char))

/-- An ordering key and its direction. -/
def readOrder (cs : List Char) : Option ((V × Bool) × List Char) := do
  let (v, rest) ← expr cs
  match Word.read rest with
  | some (.direction descending, rest) => some ((v, descending), rest)
  | _ => none

/-- A column of a projection, with its name if it has one. -/
def readColumn (cs : List Char) : Option ((Option String × V) × List Char) := do
  let (v, rest) ← expr cs
  match Word.read rest with
  | some (.named, more) =>
    (Quote.decode '"' more).map fun (name, rest) => ((some (String.ofList name), v), rest)
  | _ => some ((none, v), rest)

/-- Conditions with their results, and the value if none of them holds. -/
def readCases : Nat → List Char → Option ((List (V × V) × V) × List Char)
  | 0, _ => none
  | n + 1, cs => do
    let (condition, rest) ← expr cs
    let rest ← expect .thenResult rest
    let (result, rest) ← expr rest
    match Word.read rest with
    | some (.when, rest) => do
      let ((cases, default), rest) ← readCases n rest
      some (((condition, result) :: cases, default), rest)
    | some (.elseResult, rest) => do
      let (default, rest) ← expr rest
      let rest ← expect .endCase rest
      some (([(condition, result)], default), rest)
    | some (.endCase, rest) => some (([(condition, result)], I.constant .null), rest)
    | _ => none

/-- What stands in parentheses: two operands and the operator between them. -/
def readPair (cs : List Char) : Option (V × List Char) := do
  let (l, rest) ← expr cs
  match Word.read rest with
  | some (.arithmetic op, rest) => do
    let (r, rest) ← expr rest
    let rest ← expect .closing rest
    some (I.arithmetic op l r, rest)
  | some (.logical op, rest) => do
    let (r, rest) ← expr rest
    let rest ← expect .closing rest
    some (I.connect op l r, rest)
  | _ => none

/-- What is negated: one value, or what stands in parentheses. -/
def readNegated (cs : List Char) : Option (V × List Char) :=
  match Word.read cs with
  | some (.opening, rest) => do
    let (v, rest) ← expr rest
    let rest ← expect .closing rest
    some (v, rest)
  | _ => readAtom I d cs

/-- A value with parts, after the word it starts with. -/
def readCompound (n : Nat) (w : Word) (cs : List Char) : Option (V × List Char) :=
  match w with
  | .opening => readPair I expr cs
  | .negation => do
    let (v, rest) ← readNegated I d expr cs
    some (I.negate v, rest)
  | .convert method => do
    let (v, rest) ← expr cs
    let rest ← expect .closing rest
    some (I.convert method v, rest)
  | .aggregate function => do
    let (v, rest) ← expr cs
    let rest ← expect .closing rest
    some (I.aggregate function v, rest)
  | .coalesce => do
    let (vs, rest) ← readItems expr .closing n cs
    some (I.firstPresent vs, rest)
  | .window function true => do
    let (partitions, rest) ← readItems expr .orderBy n cs
    let (orders, rest) ← readItems (readOrder expr) .closing n rest
    some (I.window function partitions orders, rest)
  | .window function false => do
    let (orders, rest) ← readItems (readOrder expr) .closing n cs
    some (I.window function [] orders, rest)
  | .caseWhen => do
    let ((cases, default), rest) ← readCases I expr n cs
    some (I.choose cases default, rest)
  | _ => none

/-- A value that is no operand of an operator yet. -/
def readUnit (n : Nat) (cs : List Char) : Option (V × List Char) :=
  match readAtom I d cs with
  | some found => some found
  | none =>
    match Word.read cs with
    | some (w, rest) => readCompound I d expr n w rest
    | none => none

end

/-- The concatenation of values. -/
def joined : List V → V
  | [] => I.constant .null
  | [v] => v
  | v :: vs => I.concat v (joined vs)

section

variable (chain : List Char → Option (List V × List Char))

/-- A pattern, after the word that asks for a match. -/
def readPattern (v : V) (cs : List Char) : Option (V × List Char) :=
  match Word.read cs with
  | some (.percent, rest) => do
    let rest ← expect .bars rest
    let (ws, rest) ← chain rest
    match Word.read rest with
    | some (.bars, rest) => do
      let rest ← expect .percent rest
      some (I.matchText .contains v (joined I ws), rest)
    | _ => some (I.matchText .endsWith v (joined I ws), rest)
  | _ => do
    let (ws, rest) ← chain cs
    let rest ← expect .bars rest
    let rest ← expect .percent rest
    some (I.matchText .startsWith v (joined I ws), rest)

/-- What a value is tested for, if it is. -/
def readOperator (items : List Char → Option (List V × List Char)) (v : V) (cs : List Char) :
    Option (V × List Char) :=
  match Word.read cs with
  | some (.compare op, rest) => do
    let (ws, rest) ← chain rest
    some (I.compare op v (joined I ws), rest)
  | some (.isNull negated, rest) => some (I.isNull v negated, rest)
  | some (.isIn negated, rest) => do
    let (vs, rest) ← items rest
    some (if negated then I.negate (I.member v vs) else I.member v vs, rest)
  | some (.like, rest) => readPattern I chain v rest
  | _ => some (v, cs)

end

/-- An expression. -/
def readExpr : Nat → List Char → Option (V × List Char)
  | 0, _ => none
  | n + 1, cs =>
    let chain := readChain (readUnit I d (readExpr n) n) n
    match chain cs with
    | some (vs, rest) => readOperator I chain (readItems (readExpr n) .closing n) (joined I vs) rest
    | none => none

/-! ### Texts that are read as a value -/

/-- What can come after an expression. -/
inductive Closes : List Char → Prop
  | nil : Closes []
  | word {w : Word} (h : w.closes = true) (rest : List Char) : Closes (w.spell ++ rest)

/-- What can come after a concatenation: no further operand of it. -/
structure StopsChain (k : List Char) : Prop where
  ends : Ends k
  bars : ∀ more, Word.read k = some (.bars, more) → ∃ rest, Word.read more = some (.percent, rest)

theorem read_nil : Word.read [] = none := by
  have none : Word.all.find? (fun w => w.spell.isPrefixOf []) = none := by
    refine List.find?_eq_none.2 fun w _ => ?_
    obtain ⟨rest, spelt⟩ := w.spell_eq_cons
    simp [spelt]
  rw [Word.read, none, Option.map_none]

theorem StopsChain.word (w : Word) (follows : w.follows = true) (other : w ≠ .bars)
    (rest : List Char) : StopsChain (w.spell ++ rest) := by
  refine ⟨ends_of_follows follows rest, fun more h => ?_⟩
  rw [Word.read_spell] at h
  cases h
  exact absurd rfl other

theorem StopsChain.pattern (rest : List Char) :
    StopsChain (Word.bars.spell ++ (Word.percent.spell ++ rest)) := by
  refine ⟨ends_of_follows rfl _, fun more h => ?_⟩
  rw [Word.read_spell] at h
  cases h
  exact ⟨rest, Word.read_spell _ _⟩

theorem Closes.stopsChain {k : List Char} (h : Closes k) : StopsChain k := by
  cases h with
  | nil =>
    refine ⟨ends_nil, fun more h => ?_⟩
    rw [read_nil] at h
    cases h
  | word closes rest =>
    refine .word _ (Word.follows_of_closes closes) ?_ rest
    rintro rfl
    cases closes

theorem Closes.not_bars {k : List Char} (h : Closes k) (rest : List Char) :
    Word.read k ≠ some (.bars, rest) := by
  cases h with
  | nil =>
    rw [read_nil]
    exact nofun
  | word closes more =>
    rw [Word.read_spell]
    rintro ⟨⟩
    cases closes

@[simp] theorem expect_spell (w : Word) (k : List Char) : expect w (w.spell ++ k) = some k := by
  simp [expect]

/-- A text that is read as a value without parts. -/
def AtomText (t : List Char) (v : V) : Prop :=
  ∀ k, Ends k → readAtom I d (t ++ k) = some (v, k)

/-- A text that is read as a unit. -/
def UnitText (t : List Char) (v : V) : Prop :=
  ∀ n k, t.length ≤ n → Ends k → readUnit I d (readExpr I d n) n (t ++ k) = some (v, k)

/-- A text that is read as an expression. -/
def ExprText (t : List Char) (v : V) : Prop :=
  ∀ n k, t.length < n → Closes k → readExpr I d n (t ++ k) = some (v, k)

/-- A text that is read as a concatenation of units. -/
inductive ChainText : List Char → List V → Prop
  | one {t : List Char} {v : V} (h : UnitText I d t v) : ChainText t [v]
  | more {t ts : List Char} {v : V} {vs : List V} (h : UnitText I d t v) (hs : ChainText ts vs) :
      ChainText (t ++ (Word.bars.spell ++ ts)) (v :: vs)

/-- A text that is read as an operand: a concatenation, or a single unit. -/
def OperandText (t : List Char) (v : V) : Prop :=
  ∃ vs, ChainText I d t vs ∧ joined I vs = v

variable {I d} {t : List Char} {v : V}

theorem AtomText.unit (h : AtomText I d t v) : UnitText I d t v := by
  intro n k _ ends
  rw [readUnit, h k ends]

/-- What words are by themselves. -/
theorem readAtom_word (w : Word) (k : List Char) : readAtom I d (w.spell ++ k) =
    readWord I (w.spell ++ k) := by
  obtain ⟨rest, spelt⟩ := w.spell_eq_cons
  obtain ⟨-, noQuote, noDollar, noAt, -⟩ := w.first_char w.mem_all
  rw [spelt, List.cons_append]
  unfold readAtom
  split
  · rename_i same
    exact absurd (List.cons.inj same).1 noQuote
  · rename_i same
    exact absurd (List.cons.inj same).1 noDollar
  · rename_i same
    exact absurd (List.cons.inj same).1 noAt
  · rfl

/-- A unit is no percent sign. -/
theorem UnitText.not_percent (h : UnitText I d t v) {k : List Char} (ends : Ends k)
    (rest : List Char) : Word.read (t ++ k) ≠ some (.percent, rest) := by
  intro read
  have found := h t.length k (Nat.le_refl _) ends
  have spelt := Word.eq_spell_of_read read
  rw [readUnit, spelt, readAtom_word, readWord] at found
  simp [readCompound] at found

theorem readWord_of_none {k : List Char} (nothing : Word.read k = none) : readWord I k = none := by
  simp only [readWord, nothing]

theorem readUnit_of_none {expr : List Char → Option (V × List Char)} {n : Nat} {k : List Char}
    (noAtom : readAtom I d k = none) (noWord : Word.read k = none) :
    readUnit I d expr n k = none := by
  simp only [readUnit, noAtom, noWord]

theorem UnitText.length_pos (h : UnitText I d t v) : 0 < t.length := by
  rw [List.length_pos_iff]
  rintro rfl
  have found := h 0 [] (Nat.le_refl _) ends_nil
  have noAtom : readAtom I d [] = none := readWord_of_none (I := I) read_nil
  rw [List.append_nil, readUnit_of_none noAtom read_nil] at found
  cases found

namespace ChainText

variable {t' : List Char} {vs vs' : List V}

theorem append (h : ChainText I d t vs) (h' : ChainText I d t' vs') :
    ChainText I d (t ++ (Word.bars.spell ++ t')) (vs ++ vs') := by
  induction h with
  | one h => exact .more h h'
  | more h _ ih =>
    rw [List.append_assoc, List.append_assoc]
    exact .more h ih

theorem ne_nil (h : ChainText I d t vs) : vs ≠ [] := by
  cases h <;> nofun

theorem not_percent (h : ChainText I d t vs) {k : List Char} (ends : Ends k) (rest : List Char) :
    Word.read (t ++ k) ≠ some (.percent, rest) := by
  cases h with
  | one h => exact h.not_percent ends rest
  | more h _ =>
    rw [List.append_assoc, List.append_assoc]
    exact h.not_percent (ends_of_follows rfl _) rest

/-- A concatenation is read up to its last operand. -/
theorem read (h : ChainText I d t vs) {n : Nat} (fuel : t.length ≤ n) {k : List Char}
    (stops : StopsChain k) : ∀ m, t.length ≤ m →
      readChain (readUnit I d (readExpr I d n) n) m (t ++ k) = some (vs, k) := by
  induction h with
  | @one t v h =>
    intro m enough
    obtain ⟨m, rfl⟩ := Nat.exists_eq_add_of_lt (Nat.lt_of_lt_of_le h.length_pos enough)
    rw [Nat.zero_add, readChain, h n k fuel stops.ends]
    simp only [Option.bind_eq_bind, Option.bind_some]
    split
    · rename_i more bars
      obtain ⟨rest, percent⟩ := stops.bars more bars
      rw [percent]
    · rfl
  | @more t ts v vs h hs ih =>
    intro m enough
    have shorter : ts.length < (t ++ (Word.bars.spell ++ ts)).length := by
      have := h.length_pos
      simp only [List.length_append]
      omega
    obtain ⟨m, rfl⟩ := Nat.exists_eq_add_of_lt (Nat.lt_of_lt_of_le (Nat.zero_lt_of_lt shorter) enough)
    have unit := h n (Word.bars.spell ++ (ts ++ k)) (by simp only [List.length_append] at fuel; omega)
      (ends_of_follows rfl _)
    have others := ih (by omega) m (by omega)
    have noPattern := hs.not_percent stops.ends
    rw [Nat.zero_add, readChain, List.append_assoc, List.append_assoc, unit]
    simp only [Option.bind_eq_bind, Option.bind_some, Word.read_spell, others]

end ChainText

theorem joined_cons (v : V) {vs : List V} (h : vs ≠ []) :
    joined I (v :: vs) = I.concat v (joined I vs) := by
  cases vs with
  | nil => exact absurd rfl h
  | cons => rfl

theorem joined_append (lawful : I.Lawful) {vs vs' : List V} (h : vs ≠ []) (h' : vs' ≠ []) :
    joined I (vs ++ vs') = I.concat (joined I vs) (joined I vs') := by
  induction vs with
  | nil => exact absurd rfl h
  | cons v rest ih =>
    by_cases single : rest = []
    · subst single
      exact joined_cons v h'
    · rw [List.cons_append, joined_cons v (by simp [h']), joined_cons v single, ih single,
        lawful.concat_assoc]

/-! ### Operands and expressions -/

theorem UnitText.operand (h : UnitText I d t v) : OperandText I d t v :=
  ⟨[v], .one h, rfl⟩

theorem OperandText.concat (lawful : I.Lawful) {t' : List Char} {v' : V} (h : OperandText I d t v)
    (h' : OperandText I d t' v') :
    OperandText I d (t ++ (Word.bars.spell ++ t')) (I.concat v v') := by
  obtain ⟨vs, chain, rfl⟩ := h
  obtain ⟨vs', chain', rfl⟩ := h'
  exact ⟨vs ++ vs', chain.append chain', joined_append lawful chain.ne_nil chain'.ne_nil⟩

/-- After an operand comes what it is tested for. -/
theorem OperandText.test {op : List Char} {result : V} (h : OperandText I d t v)
    (operator : ∀ n k, op.length ≤ n → Closes k → StopsChain (op ++ k) ∧
      readOperator I (readChain (readUnit I d (readExpr I d n) n) n)
        (readItems (readExpr I d n) .closing n) v (op ++ k) = some (result, k)) :
    ExprText I d (t ++ op) result := by
  obtain ⟨vs, chain, rfl⟩ := h
  intro n k fuel closes
  obtain ⟨n, rfl⟩ := Nat.exists_eq_add_of_lt (Nat.zero_lt_of_lt fuel)
  rw [List.length_append] at fuel
  obtain ⟨stops, read⟩ := operator (0 + n) k (by omega) closes
  rw [readExpr, List.append_assoc, chain.read (by omega) stops _ (by omega)]
  exact read

theorem readOperator_of_none {chain items : List Char → Option (List V × List Char)}
    {k : List Char} (nothing : Word.read k = none) :
    readOperator I chain items v k = some (v, k) := by
  simp only [readOperator, nothing]

/-- Where an expression ends nothing is tested. -/
theorem readOperator_closes {chain items : List Char → Option (List V × List Char)} {k : List Char}
    (closes : Closes k) : readOperator I chain items v k = some (v, k) := by
  cases closes with
  | nil => exact readOperator_of_none read_nil
  | @word w closes rest =>
    unfold readOperator
    rw [Word.read_spell]
    cases w with
    | compare | isNull | isIn | like => cases closes
    | _ => rfl

theorem OperandText.expr (h : OperandText I d t v) : ExprText I d t v := by
  have tested : ExprText I d (t ++ []) v := h.test fun n k _ closes =>
    ⟨closes.stopsChain, readOperator_closes closes⟩
  rwa [List.append_nil] at tested

theorem OperandText.compare (op : ComparisonOp) {t' : List Char} {v' : V} (h : OperandText I d t v)
    (h' : OperandText I d t' v') :
    ExprText I d (t ++ ((Word.compare op).spell ++ t')) (I.compare op v v') := by
  obtain ⟨vs', chain, rfl⟩ := h'
  refine h.test fun n k fuel closes => ?_
  rw [List.length_append] at fuel
  rw [List.append_assoc]
  refine ⟨.word (.compare op) rfl nofun _, ?_⟩
  simp [readOperator, chain.read (n := n) (by omega) closes.stopsChain n (by omega)]

theorem OperandText.isNull (negated : Bool) (h : OperandText I d t v) :
    ExprText I d (t ++ (Word.isNull negated).spell) (I.isNull v negated) := by
  refine h.test fun n k _ closes => ⟨.word (.isNull negated) rfl nofun _, ?_⟩
  simp [readOperator]

/-! ### Patterns -/

section

variable {t' : List Char} {v' : V} (h : OperandText I d t v) (h' : OperandText I d t' v')

include h h'

theorem OperandText.startsWith : ExprText I d
    (t ++ (Word.like.spell ++ (t' ++ (Word.bars.spell ++ Word.percent.spell))))
    (I.matchText .startsWith v v') := by
  obtain ⟨vs', chain, rfl⟩ := h'
  refine h.test fun n k fuel closes => ?_
  simp only [List.length_append] at fuel
  simp only [List.append_assoc]
  refine ⟨.word .like rfl nofun _, ?_⟩
  have stops := StopsChain.pattern k
  have read := chain.read (n := n) (by omega) stops n (by omega)
  have noPercent := chain.not_percent stops.ends
  simp [readOperator, readPattern, read]

theorem OperandText.endsWith : ExprText I d
    (t ++ (Word.like.spell ++ (Word.percent.spell ++ (Word.bars.spell ++ t'))))
    (I.matchText .endsWith v v') := by
  obtain ⟨vs', chain, rfl⟩ := h'
  refine h.test fun n k fuel closes => ?_
  simp only [List.length_append] at fuel
  simp only [List.append_assoc]
  refine ⟨.word .like rfl nofun _, ?_⟩
  have read := chain.read (n := n) (by omega) closes.stopsChain n (by omega)
  have noBars : ∀ rest, Word.read k ≠ some (.bars, rest) := closes.not_bars
  simp [readOperator, readPattern, read]

theorem OperandText.contains : ExprText I d
    (t ++ (Word.like.spell ++ (Word.percent.spell ++ (Word.bars.spell ++
      (t' ++ (Word.bars.spell ++ Word.percent.spell))))))
    (I.matchText .contains v v') := by
  obtain ⟨vs', chain, rfl⟩ := h'
  refine h.test fun n k fuel closes => ?_
  simp only [List.length_append] at fuel
  simp only [List.append_assoc]
  refine ⟨.word .like rfl nofun _, ?_⟩
  have read := chain.read (n := n) (by omega) (StopsChain.pattern k) n (by omega)
  simp [readOperator, readPattern, read]

end

/-! ### Lists -/

/-- A text that is read as a list of items, each from a text of its own. -/
inductive ListText {α : Type} (item : List Char → α → Prop) : List Char → List α → Prop
  | one {t : List Char} {a : α} (h : item t a) : ListText item t [a]
  | more {t ts : List Char} {a : α} {as : List α} (h : item t a) (hs : ListText item ts as) :
      ListText item (t ++ (Word.comma.spell ++ ts)) (a :: as)

/-- A list is read up to its last word. -/
theorem ListText.read {α : Type} {item : List Char → α → Prop} {ts : List Char} {as : List α}
    (h : ListText item ts as) (reader : List Char → Option (α × List Char)) {n : Nat}
    (reads : ∀ t a k, item t a → t.length < n → Closes k →
      (∀ more, Word.read k ≠ some (.named, more)) → reader (t ++ k) = some (a, k))
    (last : Word) (closes : last.closes = true) (distinct : last ≠ .comma) (unnamed : last ≠ .named)
    (k : List Char) :
    ts.length < n → ∀ m, ts.length < m →
      readItems reader last m (ts ++ (last.spell ++ k)) = some (as, k) := by
  induction h with
  | @one t a h =>
    intro fuel m enough
    obtain ⟨m, rfl⟩ := Nat.exists_eq_add_of_lt (Nat.zero_lt_of_lt enough)
    have first := reads t a (last.spell ++ k) h fuel (.word closes k) (by simp [unnamed])
    simp [readItems, first, distinct]
  | @more t ts a as h hs ih =>
    intro fuel m enough
    simp only [List.length_append] at fuel enough
    obtain ⟨m, rfl⟩ := Nat.exists_eq_add_of_lt (Nat.zero_lt_of_lt enough)
    have length : 0 < Word.comma.spell.length := by decide
    have first := reads t a (Word.comma.spell ++ (ts ++ (last.spell ++ k))) h (by omega)
      (.word rfl _) (by simp)
    have others := ih (by omega) m (by omega)
    simp [readItems, first, others]

variable (I d) in
/-- A text that is read as an ordering key. -/
inductive OrderText : List Char → V × Bool → Prop
  | intro {t : List Char} {v : V} (h : ExprText I d t v) (descending : Bool) :
      OrderText (t ++ (Word.direction descending).spell) (v, descending)

theorem OrderText.read {t : List Char} {order : V × Bool} {n : Nat} {k : List Char}
    (h : OrderText I d t order) (fuel : t.length < n) :
    readOrder (readExpr I d n) (t ++ k) = some (order, k) := by
  cases h with
  | @intro t v h descending =>
    rw [List.length_append] at fuel
    have key := h n ((Word.direction descending).spell ++ k) (by omega) (.word rfl _)
    simp [readOrder, key]

variable (I d) in
/-- A text that is read as conditions with their results, and the value if none holds. -/
inductive CasesText : List Char → List (V × V) × V → Prop
  | last {c r : List Char} {v w : V} (hc : ExprText I d c v) (hr : ExprText I d r w) :
      CasesText (c ++ (Word.thenResult.spell ++ (r ++ Word.endCase.spell)))
        ([(v, w)], I.constant .null)
  | default {c r e : List Char} {v w u : V} (hc : ExprText I d c v) (hr : ExprText I d r w)
      (he : ExprText I d e u) :
      CasesText (c ++ (Word.thenResult.spell ++ (r ++ (Word.elseResult.spell ++
        (e ++ Word.endCase.spell))))) ([(v, w)], u)
  | more {c r ts : List Char} {v w u : V} {cases : List (V × V)} (hc : ExprText I d c v)
      (hr : ExprText I d r w) (hs : CasesText ts (cases, u)) :
      CasesText (c ++ (Word.thenResult.spell ++ (r ++ (Word.when.spell ++ ts))))
        ((v, w) :: cases, u)

theorem CasesText.read {ts : List Char} {cases : List (V × V) × V}
    (h : CasesText I d ts cases) {n : Nat} (k : List Char) :
    ts.length < n → ∀ m, ts.length < m →
      readCases I (readExpr I d n) m (ts ++ k) = some (cases, k) := by
  induction h with
  | @last c r v w hc hr =>
    intro fuel m enough
    simp only [List.length_append] at fuel enough
    obtain ⟨m, rfl⟩ := Nat.exists_eq_add_of_lt (Nat.zero_lt_of_lt enough)
    have condition := hc n (Word.thenResult.spell ++ (r ++ (Word.endCase.spell ++ k))) (by omega)
      (.word rfl _)
    have result := hr n (Word.endCase.spell ++ k) (by omega) (.word rfl _)
    simp [readCases, condition, result]
  | @default c r e v w u hc hr he =>
    intro fuel m enough
    simp only [List.length_append] at fuel enough
    obtain ⟨m, rfl⟩ := Nat.exists_eq_add_of_lt (Nat.zero_lt_of_lt enough)
    have condition := hc n (Word.thenResult.spell ++ (r ++ (Word.elseResult.spell ++
      (e ++ (Word.endCase.spell ++ k))))) (by omega) (.word rfl _)
    have result := hr n (Word.elseResult.spell ++ (e ++ (Word.endCase.spell ++ k))) (by omega)
      (.word rfl _)
    have otherwise := he n (Word.endCase.spell ++ k) (by omega) (.word rfl _)
    simp [readCases, condition, result, otherwise]
  | @more c r ts v w u cases hc hr hs ih =>
    intro fuel m enough
    simp only [List.length_append] at fuel enough
    obtain ⟨m, rfl⟩ := Nat.exists_eq_add_of_lt (Nat.zero_lt_of_lt enough)
    have length : 0 < Word.when.spell.length := by decide
    have condition := hc n (Word.thenResult.spell ++ (r ++ (Word.when.spell ++ (ts ++ k)))) (by omega)
      (.word rfl _)
    have result := hr n (Word.when.spell ++ (ts ++ k)) (by omega) (.word rfl _)
    have others := ih (by omega) m (by omega)
    simp [readCases, condition, result, others]

/-- A test for membership. -/
theorem OperandText.member (h : OperandText I d t v) {ts : List Char} {vs : List V}
    (hs : ListText (ExprText I d) ts vs) (negated : Bool) :
    ExprText I d (t ++ ((Word.isIn negated).spell ++ (ts ++ Word.closing.spell)))
      (if negated then I.negate (I.member v vs) else I.member v vs) := by
  refine h.test fun n k fuel closes => ?_
  have length : 0 < Word.closing.spell.length := by decide
  simp only [List.length_append] at fuel
  simp only [List.append_assoc]
  refine ⟨.word (.isIn negated) rfl nofun _, ?_⟩
  have items := hs.read (readExpr I d n) (n := n) (fun _ _ k h fuel closes _ => h n k fuel closes)
    .closing rfl nofun nofun k (by omega) n (by omega)
  simp [readOperator, items]

/-! ### Atoms -/

section

variable {k : List Char} (ends : Ends k) (name : String)

include ends

/-- A quoted name is read back. -/
theorem decode_quoteIdentifier :
    Quote.decode '"' ((quoteIdentifier name).toList ++ k) = some (name.toList, k) := by
  rw [quoteIdentifier, String.toList_ofList]
  exact Quote.decode_encode '"' name.toList (ends.head_ne rfl)

theorem readName_name :
    readName I ((quoteIdentifier name).toList ++ k) = some (I.column none name, k) := by
  have noDot : k.head? ≠ some '.' := ends.head_ne rfl
  rw [readName, decode_quoteIdentifier ends]
  cases k with
  | nil => simp
  | cons c rest =>
    have other : c ≠ '.' := fun same => noDot (by rw [same]; rfl)
    simp [other]

end

theorem quoteIdentifier_eq_cons (name : String) :
    ∃ rest, (quoteIdentifier name).toList = '"' :: rest := by
  rw [quoteIdentifier, String.toList_ofList]
  exact ⟨_, rfl⟩

theorem readAtom_name (name : String) (k : List Char) :
    readAtom I d ((quoteIdentifier name).toList ++ k) =
      readName I ((quoteIdentifier name).toList ++ k) := by
  obtain ⟨rest, quoted⟩ := quoteIdentifier_eq_cons name
  rw [quoted]
  rfl

theorem atomText_name (name : String) :
    AtomText I d (quoteIdentifier name).toList (I.column none name) := by
  intro k ends
  rw [readAtom_name, readName_name ends]

theorem atomText_qualified (row name : String) :
    AtomText I d ((quoteIdentifier row).toList ++ '.' :: (quoteIdentifier name).toList)
      (I.column (some row) name) := by
  intro k ends
  obtain ⟨rest, quoted⟩ := quoteIdentifier_eq_cons name
  have qualifier : Quote.decode '"'
      ((quoteIdentifier row).toList ++ '.' :: ((quoteIdentifier name).toList ++ k)) =
      some (row.toList, '.' :: ((quoteIdentifier name).toList ++ k)) := by
    rw [quoteIdentifier, String.toList_ofList]
    exact Quote.decode_encode '"' row.toList (by simp)
  have column := decode_quoteIdentifier ends name
  rw [List.append_assoc, List.cons_append, readAtom_name, readName, qualifier]
  rw [quoted, List.cons_append] at column ⊢
  simp [column]

theorem atomText_row (row : String) :
    AtomText I d ((quoteIdentifier row).toList ++ ['.', '*']) (I.wholeRow (some row)) := by
  intro k ends
  have qualifier : Quote.decode '"' ((quoteIdentifier row).toList ++ '.' :: '*' :: k) =
      some (row.toList, '.' :: '*' :: k) := by
    rw [quoteIdentifier, String.toList_ofList]
    exact Quote.decode_encode '"' row.toList (by simp)
  rw [List.append_assoc, readAtom_name, readName]
  simp [qualifier]

theorem atomText_excluded (name : String) :
    AtomText I d (Word.excluded.spell ++ (quoteIdentifier name).toList) (I.excluded name) := by
  intro k ends
  rw [List.append_assoc, readAtom_word]
  simp [readWord, decode_quoteIdentifier ends]

/-- A placeholder is read up to the end of its name. -/
theorem atomText_placeholder {name : String} (named : Expr.IsName name) :
    AtomText I d (d.placeholder name).toList (I.placeholder name) := by
  intro k ends
  cases d with
  | postgres =>
    have text : (Dialect.postgres.placeholder name).toList = '$' :: '(' :: (name.toList ++ [')']) := by
      simp [Dialect.placeholder]
    have taken : (name.toList ++ ')' :: k).takeWhile Expr.isNameChar = name.toList := by
      rw [List.takeWhile_append_of_pos named]
      simp [Expr.isNameChar]
    have left : (name.toList ++ ')' :: k).dropWhile Expr.isNameChar = ')' :: k := by
      rw [List.dropWhile_append_of_pos named]
      simp [Expr.isNameChar]
    simp [text, readAtom, readPlaceholder, taken, left]
  | sqlite =>
    have text : (Dialect.sqlite.placeholder name).toList = '@' :: name.toList := by
      simp [Dialect.placeholder]
    have stops : k.takeWhile Expr.isNameChar = [] ∧ k.dropWhile Expr.isNameChar = k := by
      cases k with
      | nil => simp
      | cons c rest => simp [ends c rfl]
    have taken : (name.toList ++ k).takeWhile Expr.isNameChar = name.toList := by
      rw [List.takeWhile_append_of_pos named, stops.1, List.append_nil]
    have left : (name.toList ++ k).dropWhile Expr.isNameChar = k := by
      rw [List.dropWhile_append_of_pos named, stops.2]
    simp [text, readAtom, readPlaceholder, taken, left]

theorem atomText_null : AtomText I d Word.null.spell (I.constant .null) := by
  intro k _
  simp [readAtom_word, readWord]

theorem atomText_minusOne : AtomText I d Word.minusOne.spell (I.constant (.int (-1))) := by
  intro k _
  simp [readAtom_word, readWord]

theorem atomText_truth (b : Bool) : AtomText I d (Word.truth b).spell (I.truth b) := by
  intro k _
  simp [readAtom_word, readWord]

theorem atomText_star : AtomText I d Word.star.spell (I.wholeRow none) := by
  intro k _
  simp [readAtom_word, readWord]

/-! ### Units with parts -/

/-- A unit with parts is read by the word it starts with. -/
theorem UnitText.compound {w : Word} (parts : ∀ k, readWord I (w.spell ++ k) = none)
    (read : ∀ n k, (w.spell ++ t).length ≤ n → Ends k →
      readCompound I d (readExpr I d n) n w (t ++ k) = some (v, k)) :
    UnitText I d (w.spell ++ t) v := by
  intro n k fuel ends
  have found := read n k fuel ends
  rw [List.append_assoc, readUnit, readAtom_word, parts]
  simp [found]

section

variable {t' : List Char} {v' : V} (h : ExprText I d t v) (h' : ExprText I d t' v')

include h h'

theorem unitText_arithmetic (op : ArithmeticOp) : UnitText I d
    (Word.opening.spell ++ (t ++ ((Word.arithmetic op).spell ++ (t' ++ Word.closing.spell))))
    (I.arithmetic op v v') := by
  refine .compound (fun k => by simp [readWord]) fun n k fuel _ => ?_
  have length : 0 < Word.opening.spell.length := by decide
  simp only [List.length_append] at fuel
  have left := h n ((Word.arithmetic op).spell ++ (t' ++ (Word.closing.spell ++ k))) (by omega)
    (.word rfl _)
  have right := h' n (Word.closing.spell ++ k) (by omega) (.word rfl _)
  simp [readCompound, readPair, left, right]

theorem unitText_logical (op : LogicalOp) : UnitText I d
    (Word.opening.spell ++ (t ++ ((Word.logical op).spell ++ (t' ++ Word.closing.spell))))
    (I.connect op v v') := by
  refine .compound (fun k => by simp [readWord]) fun n k fuel _ => ?_
  have length : 0 < Word.opening.spell.length := by decide
  simp only [List.length_append] at fuel
  have left := h n ((Word.logical op).spell ++ (t' ++ (Word.closing.spell ++ k))) (by omega)
    (.word rfl _)
  have right := h' n (Word.closing.spell ++ k) (by omega) (.word rfl _)
  simp [readCompound, readPair, left, right]

end

theorem AtomText.not_opening (h : AtomText I d t v) {k : List Char} (ends : Ends k)
    (rest : List Char) : Word.read (t ++ k) ≠ some (.opening, rest) := by
  intro read
  have found := h k ends
  rw [Word.eq_spell_of_read read, readAtom_word, readWord] at found
  simp at found

/-- A single value is negated as it is. -/
theorem AtomText.negation (h : AtomText I d t v) :
    UnitText I d (Word.negation.spell ++ t) (I.negate v) := by
  refine .compound (fun k => by simp [readWord]) fun n k _ ends => ?_
  have atom := h k ends
  have noParenthesis := h.not_opening ends
  simp [readCompound, readNegated, atom]

section

variable (h : ExprText I d t v)

include h

theorem ExprText.negation : UnitText I d
    (Word.negation.spell ++ (Word.opening.spell ++ (t ++ Word.closing.spell))) (I.negate v) := by
  refine .compound (fun k => by simp [readWord]) fun n k fuel _ => ?_
  have length : 0 < Word.opening.spell.length := by decide
  simp only [List.length_append] at fuel
  have operand := h n (Word.closing.spell ++ k) (by omega) (.word rfl _)
  simp [readCompound, readNegated, operand]

theorem ExprText.convert (method : StringMethod) : UnitText I d
    ((Word.convert method).spell ++ (t ++ Word.closing.spell)) (I.convert method v) := by
  refine .compound (fun k => by simp [readWord]) fun n k fuel _ => ?_
  have length : 0 < Word.closing.spell.length := by decide
  simp only [List.length_append] at fuel
  have operand := h n (Word.closing.spell ++ k) (by omega) (.word rfl _)
  simp [readCompound, operand]

theorem ExprText.aggregate (function : AggregateFunction) : UnitText I d
    ((Word.aggregate function).spell ++ (t ++ Word.closing.spell)) (I.aggregate function v) := by
  refine .compound (fun k => by simp [readWord]) fun n k fuel _ => ?_
  have length : 0 < Word.closing.spell.length := by decide
  simp only [List.length_append] at fuel
  have operand := h n (Word.closing.spell ++ k) (by omega) (.word rfl _)
  simp [readCompound, operand]

end

theorem unitText_coalesce {ts : List Char} {vs : List V} (h : ListText (ExprText I d) ts vs) :
    UnitText I d (Word.coalesce.spell ++ (ts ++ Word.closing.spell)) (I.firstPresent vs) := by
  refine .compound (fun k => by simp [readWord]) fun n k fuel _ => ?_
  have length : 0 < Word.closing.spell.length := by decide
  simp only [List.length_append] at fuel
  have items := h.read (readExpr I d n) (n := n) (fun _ _ k h fuel closes _ => h n k fuel closes)
    .closing rfl nofun nofun k (by omega) n (by omega)
  simp [readCompound, items]

theorem unitText_caseWhen {ts : List Char} {cases : List (V × V) × V}
    (h : CasesText I d ts cases) :
    UnitText I d (Word.caseWhen.spell ++ ts) (I.choose cases.1 cases.2) := by
  refine .compound (fun k => by simp [readWord]) fun n k fuel _ => ?_
  have length : 0 < Word.caseWhen.spell.length := by decide
  simp only [List.length_append] at fuel
  have read := h.read (n := n) k (by omega) n (by omega)
  simp [readCompound, read]

section

variable {ts : List Char} {orders : List (V × Bool)}
  (h : ListText (OrderText I d) ts orders) (function : WindowFunction)

include h

theorem unitText_window : UnitText I d
    ((Word.window function false).spell ++ (ts ++ Word.closing.spell))
    (I.window function [] orders) := by
  refine .compound (fun k => by simp [readWord]) fun n k fuel _ => ?_
  have length : 0 < Word.closing.spell.length := by decide
  simp only [List.length_append] at fuel
  have items := h.read (readOrder (readExpr I d n)) (n := n)
    (fun _ _ _ h fuel _ _ => h.read fuel) .closing rfl nofun nofun k (by omega) n (by omega)
  simp [readCompound, items]

theorem unitText_partitionedWindow {ps : List Char} {partitions : List V}
    (hp : ListText (ExprText I d) ps partitions) : UnitText I d
    ((Word.window function true).spell ++ (ps ++ (Word.orderBy.spell ++ (ts ++ Word.closing.spell))))
    (I.window function partitions orders) := by
  refine .compound (fun k => by simp [readWord]) fun n k fuel _ => ?_
  have length : 0 < Word.closing.spell.length := by decide
  simp only [List.length_append] at fuel
  have keys := hp.read (readExpr I d n) (n := n) (fun _ _ k h fuel closes _ => h n k fuel closes)
    .orderBy rfl nofun nofun (ts ++ (Word.closing.spell ++ k)) (by omega) n (by omega)
  have items := h.read (readOrder (readExpr I d n)) (n := n)
    (fun _ _ _ h fuel _ _ => h.read fuel) .closing rfl nofun nofun k (by omega) n (by omega)
  simp [readCompound, keys, items]

end

/-! ### Projections -/

variable (I d) in
/-- A text that is read as a column of a projection. -/
inductive ColumnText : List Char → Option String × V → Prop
  | unnamed {t : List Char} {v : V} (h : ExprText I d t v) : ColumnText t (none, v)
  | named {t : List Char} {v : V} (h : ExprText I d t v) (name : String) :
      ColumnText (t ++ (Word.named.spell ++ (quoteIdentifier name).toList)) (some name, v)

theorem ColumnText.read {t : List Char} {column : Option String × V} (h : ColumnText I d t column)
    {n : Nat} (fuel : t.length < n) {k : List Char} (closes : Closes k)
    (unnamed : ∀ more, Word.read k ≠ some (.named, more)) :
    readColumn (readExpr I d n) (t ++ k) = some (column, k) := by
  cases h with
  | unnamed h =>
    have value := h n k fuel closes
    simp [readColumn, value]
  | @named t v h name =>
    rw [List.length_append] at fuel
    have value := h n (Word.named.spell ++ ((quoteIdentifier name).toList ++ k)) (by omega)
      (.word rfl _)
    have quoted := decode_quoteIdentifier closes.stopsChain.ends name
    simp [readColumn, value, quoted]

variable (I d) in
/-- The columns of a projection. -/
def readProjection (cs : List Char) : Option (List (Option String × V)) :=
  let n := cs.length + 1
  (readItems (readColumn (readExpr I d n)) .closing n (cs ++ Word.closing.spell)).map Prod.fst

theorem ListText.projection {ts : List Char} {columns : List (Option String × V)}
    (h : ListText (ColumnText I d) ts columns) : readProjection I d ts = some columns := by
  have items := h.read (readColumn (readExpr I d (ts.length + 1)))
    (fun _ _ _ h fuel closes unnamed => h.read fuel closes unnamed) .closing rfl nofun nofun []
    (Nat.lt_succ_self _) (ts.length + 1) (Nat.lt_succ_self _)
  rw [List.append_nil] at items
  simp [readProjection, items]

end Sql

end FluentQuery
