import Mathlib.Data.List.Basic
import FluentQuery.Sql.Quote

/-!
# The tokens of SQL texts

A text is read from left to right as words, quoted tokens and symbols; blanks only separate.  Inside
quotes nothing counts but the quote itself, of which two in a row stand for one.  `Reader.run` does
this in one pass, so that a text put together from pieces can be read piece by piece, and `depth`
follows the parentheses that stand outside quotes.  `Enclosed` says that the parentheses match and
that the words AND and OR stand inside of them only.
-/

namespace FluentQuery

set_option autoImplicit false

namespace Sql

/-- A token of an SQL text. -/
inductive Token where
  | word (characters : List Char)
  | quoted (quote : Char) (characters : List Char)
  | symbol (character : Char)
deriving DecidableEq, Repr

namespace Token

def opening : Token := symbol '('

def closing : Token := symbol ')'

/-- Whether a token is the keyword with the given letters, in any case. -/
def isKeyword (letters : List Char) : Token → Bool
  | word characters => characters.map Char.toLower == letters
  | _ => false

def isAnd (t : Token) : Bool :=
  t.isKeyword ['a', 'n', 'd']

def isOr (t : Token) : Bool :=
  t.isKeyword ['o', 'r']

/-- A token that connects predicates. -/
def isConnective (t : Token) : Bool :=
  t.isAnd || t.isOr

end Token

/-! ### Reading -/

/-- A character of words.  A placeholder is a word with a mark in front. -/
def isWordCharacter (c : Char) : Bool :=
  c.isAlphanum || c = '_' || c = '$' || c = '@' || 128 ≤ c.toNat

def isQuote (c : Char) : Bool :=
  c = '"' || c = '\''

/-- A character that ends the token before it and is no part of it. -/
def isSeparator (c : Char) : Bool :=
  !isWordCharacter c && !isQuote c

/-- How far a text has been read. -/
inductive Reader where
  | between
  /-- In a word, of which these characters have been read, the last one first. -/
  | inWord (read : List Char)
  | inQuotes (quote : Char) (read : List Char)
  /-- After a quote, which ends the token unless there is another. -/
  | atQuote (quote : Char) (read : List Char)
deriving DecidableEq, Repr

namespace Reader

/-- The token that is complete if nothing more is read. -/
def finish : Reader → List Token
  | between => []
  | inWord read => [.word read.reverse]
  | inQuotes quote read | atQuote quote read => [.quoted quote read.reverse]

/-- Whether what comes next is read for itself. -/
def isOutside : Reader → Bool
  | inQuotes _ _ => false
  | _ => true

/-- What the first character of a token leads to, and the token that it completes. -/
def start (c : Char) : Reader × List Token :=
  if isWordCharacter c then (inWord [c], [])
  else if isQuote c then (inQuotes c [], [])
  else if c.isWhitespace then (between, [])
  else (between, [.symbol c])

/-- What the next character leads to, and the tokens that it completes. -/
def step (reader : Reader) (c : Char) : Reader × List Token :=
  let afresh : Reader × List Token := ((start c).1, reader.finish ++ (start c).2)
  match reader with
  | between => start c
  | inWord read => if isWordCharacter c then (inWord (c :: read), []) else afresh
  | inQuotes quote read =>
    if c = quote then (atQuote quote read, []) else (inQuotes quote (c :: read), [])
  | atQuote quote read =>
    if isQuote c && c = quote then (inQuotes quote (c :: read), []) else afresh

/-- What a text leads to, and the tokens that it completes. -/
def run : Reader → List Char → Reader × List Token
  | reader, [] => (reader, [])
  | reader, c :: rest =>
    let (next, tokens) := reader.step c
    let (last, more) := run next rest
    (last, tokens ++ more)

end Reader

/-- The tokens of a text. -/
def tokens (text : List Char) : List Token :=
  (Reader.between.run text).2 ++ (Reader.between.run text).1.finish

namespace Reader

theorem run_cons (reader : Reader) (c : Char) (rest : List Char) :
    reader.run (c :: rest) =
      (((reader.step c).1.run rest).1, (reader.step c).2 ++ ((reader.step c).1.run rest).2) := rfl

/-- The reader goes on where the first text has left it. -/
theorem run_append (reader : Reader) (front back : List Char) :
    reader.run (front ++ back) =
      (((reader.run front).1.run back).1,
        (reader.run front).2 ++ ((reader.run front).1.run back).2) := by
  induction front generalizing reader with
  | nil => rfl
  | cons c rest ih => rw [List.cons_append, run_cons, ih, run_cons, List.append_assoc]

/-- A separator completes the token before it. -/
theorem step_separator {reader : Reader} (outside : reader.isOutside = true) {c : Char}
    (separator : isSeparator c = true) :
    reader.step c = ((between.step c).1, reader.finish ++ (between.step c).2) := by
  have word : isWordCharacter c = false := by
    simpa using (Bool.and_eq_true_iff.1 separator).1
  have quote : isQuote c = false := by
    simpa using (Bool.and_eq_true_iff.1 separator).2
  cases reader with
  | between => rfl
  | inWord read => simp [step, word]
  | inQuotes => cases outside
  | atQuote => simp [step, quote]

/-- Outside of quotes a separator ends the word, whatever it was. -/
theorem run_separator {reader : Reader} (outside : reader.isOutside = true) {c : Char}
    (separator : isSeparator c = true) (rest : List Char) :
    reader.run (c :: rest) =
      ((between.run (c :: rest)).1, reader.finish ++ (between.run (c :: rest)).2) := by
  simp only [run_cons, step_separator outside separator, List.append_assoc]

/-- Inside quotes every character is read, and every quote written twice. -/
theorem run_double (quote : Char) (isQuote : Sql.isQuote quote = true) (read text : List Char) :
    (inQuotes quote read).run (Quote.double quote text) =
      (inQuotes quote (text.reverse ++ read), []) := by
  induction text generalizing read with
  | nil => rfl
  | cons c rest ih =>
    have first : (inQuotes quote read).run (if c = quote then [quote, quote] else [c]) =
        (inQuotes quote (c :: read), []) := by
      by_cases h : c = quote
      · subst h
        simp [run, step, isQuote]
      · simp [run, step, h]
    show (inQuotes quote read).run ((if c = quote then [quote, quote] else [c]) ++
      Quote.double quote rest) = _
    rw [run_append, first, ih, List.reverse_cons, List.append_assoc]
    rfl

theorem isWordCharacter_quote {quote : Char} (isQuote : Sql.isQuote quote = true) :
    isWordCharacter quote = false := by
  rcases Bool.or_eq_true_iff.1 isQuote with h | h
  all_goals
    rw [of_decide_eq_true h]
    decide

/-- A quote opens a token. -/
theorem start_quote {quote : Char} (isQuote : Sql.isQuote quote = true) :
    start quote = (inQuotes quote [], []) := by
  simp [start, isWordCharacter_quote isQuote, isQuote]

/-- Quoted text is read up to its last quote, doubled quotes included. -/
theorem run_encode (quote : Char) (isQuote : Sql.isQuote quote = true) (text : List Char) :
    between.run (Quote.encode quote text) = (atQuote quote text.reverse, []) := by
  have opens : between.step quote = (inQuotes quote [], []) := start_quote isQuote
  show between.run (quote :: (Quote.double quote text ++ [quote])) = _
  rw [run_cons, opens]
  simp only [run_append, run_double quote isQuote]
  simp [run, step]

end Reader

/-- A quoted text is one token. -/
theorem tokens_encode (quote : Char) (isQuote : Sql.isQuote quote = true) (text : List Char) :
    tokens (Quote.encode quote text) = [.quoted quote text] := by
  rw [tokens, Reader.run_encode quote isQuote]
  simp [Reader.finish]

/-- Two texts are read one after the other if the second starts with a separator. -/
theorem tokens_append {front back : List Char}
    (outside : (Reader.between.run front).1.isOutside = true)
    (separated : back.head?.all isSeparator = true) :
    tokens (front ++ back) = tokens front ++ tokens back := by
  cases back with
  | nil => simp [tokens, Reader.run, Reader.finish]
  | cons c rest =>
    unfold tokens
    rw [Reader.run_append, Reader.run_separator outside separated]
    simp

/-- They are as well if the first is read to its end. -/
theorem tokens_append_of_between {front : List Char}
    (done : (Reader.between.run front).1 = .between) (back : List Char) :
    tokens (front ++ back) = tokens front ++ tokens back := by
  unfold tokens
  rw [Reader.run_append, done]
  simp [Reader.finish]

example : tokens "(\"a OR b\" = $(or))".toList =
    [.symbol '(', .quoted '"' "a OR b".toList, .symbol '=', .word ['$'], .symbol '(',
      .word ['o', 'r'], .symbol ')', .symbol ')'] := by decide

/-! ### Parentheses -/

namespace Token

/-- How many parentheses are open after a token, when so many were before it. -/
def nesting (n : Nat) (t : Token) : Nat :=
  if t = opening then n + 1 else if t = closing then n - 1 else n

@[simp] theorem nesting_closing (n : Nat) : closing.nesting n = n - 1 := rfl

/-- The same; none where no parenthesis is open and the token closes one or connects predicates. -/
def depthAfter (n : Nat) (t : Token) : Option Nat :=
  if n = 0 && (t = closing || t.isConnective) then none else some (t.nesting n)

/-- A token that neither opens nor closes a parenthesis nor connects predicates. -/
def IsPlain (t : Token) : Prop :=
  t ≠ opening ∧ t ≠ closing ∧ t.isConnective = false

theorem IsPlain.depthAfter {t : Token} (h : t.IsPlain) (n : Nat) : t.depthAfter n = some n := by
  obtain ⟨notOpening, notClosing, plain⟩ := h
  simp [Token.depthAfter, nesting, notOpening, notClosing, plain]

theorem isPlain_quoted (quote : Char) (characters : List Char) :
    (quoted quote characters).IsPlain :=
  ⟨nofun, nofun, rfl⟩

/-- Inside parentheses every word is allowed. -/
theorem depthAfter_word_succ (characters : List Char) (n : Nat) :
    (word characters).depthAfter (n + 1) = some (n + 1) := by
  simp [depthAfter, nesting, opening, closing]

theorem depthAfter_zero {t : Token} (connective : t.isConnective = true) :
    t.depthAfter 0 = none := by
  simp [depthAfter, connective]

theorem nesting_of_depthAfter {n m : Nat} {t : Token} (h : t.depthAfter n = some m) :
    t.nesting n = m := by
  unfold depthAfter at h
  split at h
  · cases h
  · exact Option.some.inj h

/-- Where nothing is open, nothing is closed. -/
theorem ne_closing_of_depthAfter_zero {m : Nat} {t : Token} (h : t.depthAfter 0 = some m) :
    t ≠ closing := by
  rintro rfl
  cases h

/-- Further inside nothing more is refused. -/
theorem depthAfter_succ {n m : Nat} {t : Token} (h : t.depthAfter n = some m) :
    t.depthAfter (n + 1) = some (m + 1) := by
  have here := nesting_of_depthAfter h
  have deeper : t.nesting (n + 1) = m + 1 := by
    by_cases closes : t = closing
    · have inside : n ≠ 0 := by
        rintro rfl
        exact ne_closing_of_depthAfter_zero h closes
      rw [closes, nesting_closing] at here ⊢
      omega
    · unfold nesting at here ⊢
      rw [if_neg closes] at here ⊢
      split at here
      · rw [if_pos ‹_›, here]
      · rw [if_neg ‹_›, here]
  simp [depthAfter, deeper]

end Token

/-- How many parentheses are open after a text; none if one is closed that is not open, or if
predicates are connected outside all of them. -/
def depth (n : Nat) (ts : List Token) : Option Nat :=
  ts.foldlM Token.depthAfter n

theorem depth_cons (n : Nat) (t : Token) (ts : List Token) :
    depth n (t :: ts) = (t.depthAfter n).bind fun m => depth m ts := by
  simp [depth]

/-- The depth after two texts is that of the second, started after the first. -/
theorem depth_append (n : Nat) (ts us : List Token) :
    depth n (ts ++ us) = (depth n ts).bind fun m => depth m us := by
  simp [depth, List.foldlM_append]

/-- In one more pair of parentheses every depth is one more. -/
theorem depth_succ {n m : Nat} {ts : List Token} (h : depth n ts = some m) :
    depth (n + 1) ts = some (m + 1) := by
  induction ts generalizing n with
  | nil =>
    cases h
    rfl
  | cons t rest ih =>
    rw [depth_cons, Option.bind_eq_some_iff] at h
    obtain ⟨k, first, later⟩ := h
    rw [depth_cons, Token.depthAfter_succ first]
    exact ih later

/-- Tokens at one depth stay there. -/
theorem depth_const {n : Nat} {ts : List Token} (h : ∀ t ∈ ts, t.depthAfter n = some n) :
    depth n ts = some n := by
  induction ts with
  | nil => rfl
  | cons t rest ih =>
    rw [List.forall_mem_cons] at h
    rw [depth_cons, h.1, Option.bind_some]
    exact ih h.2

/-- Parentheses match, and the words AND and OR occur inside of them only. -/
structure Enclosed (ts : List Token) : Prop where
  balanced : ts.count .opening = ts.count .closing
  nested : ∀ before after, ts = before ++ after → before.count .closing ≤ before.count .opening
  connectives : ∀ before t after, ts = before ++ t :: after → t.isConnective = true →
    before.count .closing < before.count .opening

/-- The depth counts the parentheses that are open. -/
theorem count_of_depthAfter {n m : Nat} {t : Token} (h : t.depthAfter n = some m) :
    n + [t].count .opening = m + [t].count .closing := by
  have here := Token.nesting_of_depthAfter h
  by_cases opens : t = .opening
  · subst opens here
    rfl
  by_cases closes : t = .closing
  · have inside : n ≠ 0 := by
      rintro rfl
      exact Token.ne_closing_of_depthAfter_zero h closes
    subst closes
    rw [Token.nesting_closing] at here
    show n + 0 = m + 1
    omega
  · rw [Token.nesting, if_neg opens, if_neg closes] at here
    simp [opens, closes, here]

/-- Depth is the difference of what was opened and what was closed. -/
theorem count_of_depth {n m : Nat} {ts : List Token} (h : depth n ts = some m) :
    n + ts.count .opening = m + ts.count .closing := by
  induction ts generalizing n with
  | nil =>
    cases h
    rfl
  | cons t rest ih =>
    rw [depth_cons, Option.bind_eq_some_iff] at h
    obtain ⟨k, first, later⟩ := h
    have here := count_of_depthAfter first
    have below := ih later
    rw [← List.singleton_append, List.count_append, List.count_append]
    omega

/-- A text that can be read has a depth wherever it is cut. -/
theorem depth_of_append {n m : Nat} {before after : List Token}
    (h : depth n (before ++ after) = some m) :
    ∃ k, depth n before = some k ∧ depth k after = some m := by
  rw [depth_append, Option.bind_eq_some_iff] at h
  exact h

/-- A text that has a depth, and returns to the outermost one, is enclosed. -/
theorem enclosed_of_depth {ts : List Token} (h : depth 0 ts = some 0) : Enclosed ts where
  balanced := by
    have := count_of_depth h
    omega
  nested before after split := by
    subst split
    obtain ⟨k, first, -⟩ := depth_of_append h
    have := count_of_depth first
    omega
  connectives before t after split connective := by
    subst split
    obtain ⟨k, first, later⟩ := depth_of_append h
    have := count_of_depth first
    have inside : k ≠ 0 := by
      rintro rfl
      rw [depth_cons, Option.bind_eq_some_iff] at later
      obtain ⟨_, here, -⟩ := later
      rw [Token.depthAfter_zero connective] at here
      cases here
    omega

example : ¬ Enclosed (tokens "a = 1 OR b = 2".toList) := by
  intro h
  have inside := h.connectives (tokens "a = 1".toList) (.word ['O', 'R'])
    (tokens "b = 2".toList) (by decide) rfl
  exact absurd inside (by decide)

/-! ### The terms of a text -/

/-- The given tokens in front of the first of several parts. -/
def prepend (ts : List Token) : List (List Token) → List (List Token)
  | [] => [ts]
  | first :: others => (ts ++ first) :: others

/-- The parts between the tokens at which a text is cut, those outside all parentheses. -/
def terms (cut : Token → Bool) : Nat → List Token → List (List Token)
  | _, [] => [[]]
  | n, t :: rest =>
    if n = 0 && cut t then [] :: terms cut 0 rest
    else prepend [t] (terms cut (t.nesting n) rest)

theorem prepend_append (ts us : List Token) (parts : List (List Token)) :
    prepend (ts ++ us) parts = prepend ts (prepend us parts) := by
  cases parts with
  | nil => rfl
  | cons first others => simp [prepend]

theorem prepend_ne_nil (ts : List Token) (parts : List (List Token)) : prepend ts parts ≠ [] := by
  cases parts <;> exact nofun

theorem prepend_nil {parts : List (List Token)} (h : parts ≠ []) : prepend [] parts = parts := by
  cases parts with
  | nil => exact absurd rfl h
  | cons first others => rfl

/-- There is at least one term. -/
theorem terms_ne_nil (cut : Token → Bool) (n : Nat) (ts : List Token) : terms cut n ts ≠ [] := by
  cases ts with
  | nil => exact nofun
  | cons t rest =>
    unfold terms
    split
    · exact nofun
    · exact prepend_ne_nil _ _

section

variable {cut : Token → Bool} (connects : ∀ t, cut t = true → t.isConnective = true)

include connects

/-- Nothing is cut in a text that does not connect predicates outside parentheses. -/
theorem terms_append {n m : Nat} {ts : List Token} (h : depth n ts = some m) (us : List Token) :
    terms cut n (ts ++ us) = prepend ts (terms cut m us) := by
  induction ts generalizing n with
  | nil =>
    cases h
    exact (prepend_nil (terms_ne_nil cut _ us)).symm
  | cons t rest ih =>
    rw [depth_cons, Option.bind_eq_some_iff] at h
    obtain ⟨k, first, later⟩ := h
    have kept : (n = 0 && cut t) = false := by
      rw [Bool.eq_false_iff]
      intro both
      obtain ⟨outside, cuts⟩ : n = 0 ∧ cut t = true := by simpa using both
      subst outside
      rw [Token.depthAfter_zero (connects t cuts)] at first
      cases first
    rw [List.cons_append, terms, kept, if_neg Bool.false_ne_true, Token.nesting_of_depthAfter first,
      ih later, ← prepend_append]
    rfl

/-- Such a text is one term. -/
theorem terms_of_depth {ts : List Token} (h : depth 0 ts = some 0) : terms cut 0 ts = [ts] := by
  have whole := terms_append connects h []
  rwa [List.append_nil, terms, prepend, List.append_nil] at whole

/-- Where it is cut, the text before is one term. -/
theorem terms_append_cut {ts : List Token} (h : depth 0 ts = some 0) {t : Token}
    (cuts : cut t = true) (us : List Token) :
    terms cut 0 (ts ++ t :: us) = ts :: terms cut 0 us := by
  rw [terms_append connects h, terms, cuts]
  simp [prepend]

end

/-! ### Texts without quotes and parentheses -/

/-- A character that is no quote and no parenthesis. -/
def isNeutral (c : Char) : Bool :=
  !isQuote c && c ≠ '(' && c ≠ ')'

/-- A character that begins no connective either. -/
def isHarmless (c : Char) : Bool :=
  isNeutral c && c.toLower ≠ 'a' && c.toLower ≠ 'o'

/-- Harmless characters are neutral. -/
theorem isNeutral_of_isHarmless {c : Char} (h : isHarmless c = true) : isNeutral c = true := by
  simp only [isHarmless, Bool.and_eq_true] at h
  exact h.1.1

namespace Reader

/-- No quote is being read, and the word that is has a property. -/
def InWord (property : List Char → Prop) : Reader → Prop
  | between => True
  | inWord read => property read
  | _ => False

/-- A word with a property, or a symbol that is no parenthesis. -/
def Emitted (property : List Char → Prop) (t : Token) : Prop :=
  (∃ read, property read ∧ t = .word read.reverse) ∨ ∃ c, isNeutral c = true ∧ t = .symbol c

/-- Characters that are no quotes and no parentheses, and words of which have a property. -/
structure Keeps (allowed : Char → Prop) (property : List Char → Prop) : Prop where
  neutral : ∀ c, allowed c → isNeutral c = true
  fresh : ∀ c, allowed c → property [c]
  more : ∀ c read, allowed c → property read → property (c :: read)

variable {allowed : Char → Prop} {property : List Char → Prop} {reader : Reader}

namespace Keeps

variable (keeps : Keeps allowed property)

include keeps

theorem start {c : Char} (h : allowed c) :
    (start c).1.InWord property ∧ ∀ t ∈ (start c).2, Emitted property t := by
  have quote : isQuote c = false := by
    have neutral := keeps.neutral c h
    simp only [isNeutral, Bool.and_eq_true, Bool.not_eq_true'] at neutral
    exact neutral.1.1
  unfold Reader.start
  rw [quote]
  split
  · exact ⟨keeps.fresh c h, nofun⟩
  · simp only [Bool.false_eq_true, if_false]
    split
    · exact ⟨trivial, nofun⟩
    · refine ⟨trivial, fun t ht => ?_⟩
      rw [List.mem_singleton] at ht
      exact .inr ⟨c, keeps.neutral c h, ht⟩

theorem step (within : reader.InWord property) {c : Char} (h : allowed c) :
    (reader.step c).1.InWord property ∧ ∀ t ∈ (reader.step c).2, Emitted property t := by
  have afresh := keeps.start h
  cases reader with
  | between => exact afresh
  | inWord read =>
    simp only [Reader.step]
    split
    · exact ⟨keeps.more c read h within, nofun⟩
    · refine ⟨afresh.1, fun t ht => ?_⟩
      rcases List.mem_append.1 ht with ended | started
      · rw [finish, List.mem_singleton] at ended
        exact .inl ⟨read, within, ended⟩
      · exact afresh.2 t started
  | inQuotes | atQuote => cases within

/-- A text of such characters consists of words with the property and of symbols. -/
theorem run (within : reader.InWord property) {text : List Char} (h : ∀ c ∈ text, allowed c) :
    (reader.run text).1.InWord property ∧ ∀ t ∈ (reader.run text).2, Emitted property t := by
  induction text generalizing reader with
  | nil => exact ⟨within, nofun⟩
  | cons c rest ih =>
    rw [List.forall_mem_cons] at h
    have first := keeps.step within h.1
    have later := ih first.1 h.2
    refine ⟨later.1, fun t ht => ?_⟩
    rcases List.mem_append.1 ht with here | there
    · exact first.2 t here
    · exact later.2 t there

end Keeps

/-- A word is outside of quotes. -/
theorem InWord.isOutside (h : reader.InWord property) : reader.isOutside = true := by
  cases reader with
  | between | inWord => rfl
  | inQuotes | atQuote => cases h

theorem InWord.finish (h : reader.InWord property) : ∀ t ∈ reader.finish, Emitted property t := by
  intro t ht
  cases reader with
  | between => cases ht
  | inWord read =>
    rw [Reader.finish, List.mem_singleton] at ht
    exact .inl ⟨read, h, ht⟩
  | inQuotes | atQuote => cases h

theorem Emitted.depthAfter {n : Nat}
    (words : ∀ read, property read → (Token.word read.reverse).depthAfter n = some n) {t : Token}
    (h : Emitted property t) : t.depthAfter n = some n := by
  rcases h with ⟨read, holds, rfl⟩ | ⟨c, neutral, rfl⟩
  · exact words read holds
  · apply Token.IsPlain.depthAfter
    refine ⟨?_, ?_, rfl⟩
    · rintro ⟨⟩
      cases neutral
    · rintro ⟨⟩
      cases neutral

/-- Characters of words are read into the word that has been begun. -/
theorem run_word (read : List Char) {text : List Char}
    (h : ∀ c ∈ text, isWordCharacter c = true) :
    (inWord read).run text = (inWord (text.reverse ++ read), []) := by
  induction text generalizing read with
  | nil => rfl
  | cons c rest ih =>
    rw [List.forall_mem_cons] at h
    have first : (inWord read).step c = (inWord (c :: read), []) := if_pos h.1
    rw [run_cons, first, ih (c :: read) h.2, List.reverse_cons, List.append_assoc]
    rfl

end Reader

/-- What has been read of a word keeps it from being a connective: a mark, or that it does not begin
like one. -/
def IsMarked (read : List Char) : Prop :=
  '@' ∈ read ∨ ∀ c ∈ read, isHarmless c = true

theorem IsMarked.cons {c : Char} {read : List Char} (harmless : isHarmless c = true)
    (h : IsMarked read) : IsMarked (c :: read) := by
  rcases h with mark | others
  · exact .inl (List.mem_cons_of_mem c mark)
  · exact .inr (List.forall_mem_cons.2 ⟨harmless, others⟩)

/-- A word with a mark is no keyword. -/
theorem not_isKeyword_of_isMarked {read : List Char} (h : IsMarked read) {first : Char}
    {rest : List Char} (begins : first = 'a' ∨ first = 'o') (unmarked : '@' ∉ first :: rest) :
    (Token.word read).isKeyword (first :: rest) = false := by
  rw [Bool.eq_false_iff]
  intro is
  have same : read.map Char.toLower = first :: rest := eq_of_beq is
  rcases h with mark | harmless
  · apply unmarked
    rw [← same]
    exact List.mem_map_of_mem (f := Char.toLower) mark
  · cases read with
    | nil => cases same
    | cons c others =>
      have head : c.toLower = first := (List.cons.inj same).1
      have := harmless c (List.mem_cons_self ..)
      rcases begins with rfl | rfl <;> simp [isHarmless, head] at this

/-- A word with a mark changes no depth. -/
theorem isPlain_of_isMarked {read : List Char} (h : IsMarked read) :
    (Token.word read.reverse).IsPlain := by
  have marked : IsMarked read.reverse := by
    rcases h with mark | harmless
    · exact .inl (List.mem_reverse.2 mark)
    · exact .inr fun c hc => harmless c (List.mem_reverse.1 hc)
  refine ⟨nofun, nofun, ?_⟩
  rw [Token.isConnective, Token.isAnd, Token.isOr,
    not_isKeyword_of_isMarked marked (.inl rfl) (by decide),
    not_isKeyword_of_isMarked marked (.inr rfl) (by decide)]
  rfl

end Sql

end FluentQuery
