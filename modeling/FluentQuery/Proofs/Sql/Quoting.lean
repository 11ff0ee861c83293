import FluentQuery.Proofs.Sql.Reading
import FluentQuery.Proofs.Sql.TextRules
import FluentQuery.Proofs.Sql.Tokens

/-!
# Quoted names and texts are read back

A quoted token ends at its first quote that is not doubled.  So it is read back whatever comes after
it but another such quote, character by character (`Quote.reads_encode`) or byte by byte, because a
quote is no byte of another character (`Text.flatMap_encode`).  Names with dots between them can be
told from their text (`Quote.encodePath_inj`).  Main statement: `quoted_tokens_are_read_back`.
-/

namespace FluentQuery

set_option autoImplicit false

/-! ### Reading a token -/

namespace Quote

/-- A token that stands for a text, whatever comes after it but another quote. -/
def Reads (quote : Char) (token text : List Char) : Prop :=
  ∀ after : List Char, after.head? ≠ some quote →
    decode quote (token ++ after) = some (text, after)

theorem reads_encode (quote : Char) (text : List Char) : Reads quote (encode quote text) text :=
  fun _ ends => decode_encode quote text ends

theorem reads_quoteIdentifier (name : String) :
    Reads '"' (quoteIdentifier name).toList name.toList := by
  rw [quoteIdentifier, String.toList_ofList]
  exact reads_encode '"' name.toList

theorem reads_quoteString (text : String) :
    Reads '\'' (quoteString text).toList text.toList := by
  rw [quoteString, String.toList_ofList]
  exact reads_encode '\'' text.toList

/-! ### Names with dots between them -/

/-- Names that follow another, each after a dot. -/
def dotted : List (List Char) → List Char
  | [] => []
  | name :: more => '.' :: (encode '"' name ++ dotted more)

/-- A name and those that follow it. -/
def encodePath (name : List Char) (more : List (List Char)) : List Char :=
  encode '"' name ++ dotted more

theorem decode_encodePath (name : List Char) (more : List (List Char)) :
    decode '"' (encodePath name more) = some (name, dotted more) := by
  refine reads_encode '"' name (dotted more) ?_
  cases more with
  | nil => nofun
  | cons _ _ => simp [dotted]

theorem encodePath_split {name name' : List Char} {more more' : List (List Char)}
    (h : encodePath name more = encodePath name' more') :
    name = name' ∧ dotted more = dotted more' := by
  have first := decode_encodePath name more
  rw [h, decode_encodePath, Option.some.injEq, Prod.mk.injEq] at first
  exact ⟨first.1.symm, first.2.symm⟩

theorem dotted_inj {more more' : List (List Char)} (h : dotted more = dotted more') :
    more = more' := by
  induction more generalizing more' with
  | nil =>
    cases more' with
    | nil => rfl
    | cons => cases h
  | cons name rest ih =>
    cases more' with
    | nil => cases h
    | cons name' rest' =>
      obtain ⟨rfl, later⟩ := encodePath_split (List.cons.inj h).2
      rw [ih later]

/-- The names can be told from the text. -/
theorem encodePath_inj {name name' : List Char} {more more' : List (List Char)}
    (h : encodePath name more = encodePath name' more') : name = name' ∧ more = more' :=
  ⟨(encodePath_split h).1, dotted_inj (encodePath_split h).2⟩

/-- The name of a table, after that of its schema if it has one. -/
def encodeTable (schema table : List Char) : List Char :=
  if schema = [] then encodePath table [] else encodePath schema [table]

theorem encodeTable_inj {schema table schema' table' : List Char}
    (h : encodeTable schema table = encodeTable schema' table') :
    schema = schema' ∧ table = table' := by
  unfold encodeTable at h
  split_ifs at h with plain plain' plain'
  · exact ⟨plain.trans plain'.symm, (encodePath_inj h).1⟩
  · cases (encodePath_inj h).2
  · cases (encodePath_inj h).2
  · obtain ⟨same, more⟩ := encodePath_inj h
    exact ⟨same, (List.cons.inj more).1⟩

theorem toList_quoteTable (schema table : String) :
    (quoteTable schema table).toList = encodeTable schema.toList table.toList := by
  unfold quoteTable encodeTable
  by_cases plain : schema = ""
  · subst plain
    simp [quoteIdentifier, encodePath, dotted]
  · have named : schema.toList ≠ [] := fun h => plain (String.toList_eq_nil_iff.1 h)
    rw [if_neg fun empty => plain (String.isEmpty_iff.1 empty), if_neg named]
    simp [quoteIdentifier, encodePath, dotted]

end Quote

/-- A column is written as its name, after that of the row where it needs one. -/
theorem SqlScope.chars_column (scope : SqlScope) (d : Dialect) (name table : String)
    (source : Option ColumnSource) {f : Fragment}
    (written : scope.column name table source = .ok f) :
    (scope.qualifier table source = .ok none ∧ f.chars d = Quote.encodePath name.toList []) ∨
      ∃ row, scope.qualifier table source = .ok (some row) ∧
        f.chars d = Quote.encodePath row.toList [name.toList] := by
  obtain ⟨row?, qualified, text⟩ := outcome_bind_eq_ok.1 written
  cases row? with
  | none =>
    cases text
    left
    simp [qualified, quoteIdentifier, Quote.encodePath, Quote.dotted]
  | some row =>
    cases text
    right
    simp [qualified, quoteIdentifier, Quote.encodePath, Quote.dotted]

/-! ### Bytes -/

namespace Quote

theorem double_append (quote : Char) (front back : List Char) :
    double quote (front ++ back) = double quote front ++ double quote back :=
  List.flatMap_append

theorem double_of_notMem {quote : Char} {text : List Char} (absent : quote ∉ text) :
    double quote text = text := by
  induction text with
  | nil => rfl
  | cons c rest ih =>
    rw [List.mem_cons, not_or] at absent
    have first : double quote [c] = [c] := by simp [double, Ne.symm absent.1]
    rw [← List.singleton_append, double_append, first, ih absent.2]

end Quote

namespace Text

/-- The character with the number of a byte. -/
def byteChar (b : UInt8) : Char :=
  Char.ofNat b.toNat

/-- The bytes of a text, each as a character. -/
def bytes (s : String) : List Char :=
  s.toUTF8.data.toList.map byteChar

/-- The bytes of one character. -/
def charBytes (c : Char) : List Char :=
  (String.utf8EncodeChar c).map byteChar

theorem bytes_ofList (cs : List Char) : bytes (String.ofList cs) = cs.flatMap charBytes := by
  rw [bytes, String.toUTF8, String.toByteArray_ofList, List.utf8Encode, List.data_toByteArray,
    List.map_flatMap]
  rfl

theorem bytes_eq (s : String) : bytes s = s.toList.flatMap charBytes := by
  rw [← bytes_ofList, String.ofList_toList]

/-- A character that is written as one byte. -/
def IsAscii (c : Char) : Prop :=
  c.toNat < 128

theorem toNat_byteChar (b : UInt8) : (byteChar b).toNat = b.toNat := by
  have small : b.toNat < 256 := b.toNat_lt
  have valid : b.toNat.isValidChar := .inl (by omega)
  rw [byteChar, Char.ofNat, dif_pos valid]
  rfl

theorem byteChar_ofNat_toNat {c : Char} (ascii : IsAscii c) :
    byteChar (UInt8.ofNat c.toNat) = c := by
  have small : c.toNat < 128 := ascii
  rw [byteChar, UInt8.toNat_ofNat', Nat.mod_eq_of_lt (by omega), Char.ofNat_toNat]

theorem charBytes_of_isAscii {c : Char} (ascii : IsAscii c) : charBytes c = [c] := by
  have one : c.val.toNat ≤ 127 := Nat.le_of_lt_succ ascii
  simp only [charBytes, String.utf8EncodeChar, if_pos one, List.map_cons, List.map_nil]
  exact congrArg (· :: []) (byteChar_ofNat_toNat ascii)

/-- Every byte of another character has its highest bit set. -/
theorem le_toNat_of_mem_utf8EncodeChar {c : Char} (other : ¬ IsAscii c) :
    ∀ b ∈ String.utf8EncodeChar c, 128 ≤ b.toNat := by
  have several : ¬ c.val.toNat ≤ 127 := fun one => other (Nat.lt_succ_of_le one)
  simp only [String.utf8EncodeChar, if_neg several]
  split
  · simp only [List.forall_mem_cons, UInt8.toNat_ofNat']
    exact ⟨by omega, by omega, nofun⟩
  split
  · simp only [List.forall_mem_cons, UInt8.toNat_ofNat']
    exact ⟨by omega, by omega, by omega, nofun⟩
  · simp only [List.forall_mem_cons, UInt8.toNat_ofNat']
    exact ⟨by omega, by omega, by omega, by omega, nofun⟩

/-- A character of one byte is no byte of another. -/
theorem notMem_charBytes {quote c : Char} (ascii : IsAscii quote) (other : c ≠ quote) :
    quote ∉ charBytes c := by
  by_cases single : IsAscii c
  · rw [charBytes_of_isAscii single, List.mem_singleton]
    exact Ne.symm other
  · rintro inside
    obtain ⟨b, mem, rfl⟩ := List.mem_map.1 inside
    have high := le_toNat_of_mem_utf8EncodeChar single b mem
    have low : (byteChar b).toNat < 128 := ascii
    rw [toNat_byteChar] at low
    omega

/-- Quotes are doubled among bytes as they are among characters. -/
theorem flatMap_double {quote : Char} (ascii : IsAscii quote) (text : List Char) :
    (Quote.double quote text).flatMap charBytes = Quote.double quote (text.flatMap charBytes) := by
  induction text with
  | nil => rfl
  | cons c rest ih =>
    have first :
        (Quote.double quote [c]).flatMap charBytes = Quote.double quote (charBytes c) := by
      by_cases same : c = quote
      · subst same
        simp [Quote.double, charBytes_of_isAscii ascii]
      · rw [Quote.double_of_notMem (notMem_charBytes ascii same)]
        simp [Quote.double, same]
    rw [← List.singleton_append, Quote.double_append, List.flatMap_append, ih, first,
      List.flatMap_append, Quote.double_append, List.flatMap_singleton]

/-- The bytes of a quoted token are the quoted bytes of its text. -/
theorem flatMap_encode {quote : Char} (ascii : IsAscii quote) (text : List Char) :
    (Quote.encode quote text).flatMap charBytes = Quote.encode quote (text.flatMap charBytes) := by
  rw [Quote.encode, List.flatMap_append, List.flatMap_cons, flatMap_double ascii,
    List.flatMap_singleton, charBytes_of_isAscii ascii]
  rfl

theorem isAscii_doubleQuote : IsAscii '"' := by
  show ('"').toNat < 128
  decide

theorem isAscii_singleQuote : IsAscii '\'' := by
  show ('\'').toNat < 128
  decide

theorem bytes_quoteIdentifier (name : String) :
    bytes (quoteIdentifier name) = Quote.encode '"' (bytes name) := by
  rw [quoteIdentifier, bytes_ofList, flatMap_encode isAscii_doubleQuote, bytes_eq]

theorem bytes_quoteString (text : String) :
    bytes (quoteString text) = Quote.encode '\'' (bytes text) := by
  rw [quoteString, bytes_ofList, flatMap_encode isAscii_singleQuote, bytes_eq]

theorem bytes_append (s t : String) : bytes (s ++ t) = bytes s ++ bytes t := by
  rw [bytes_eq, String.toList_append, List.flatMap_append, ← bytes_eq, ← bytes_eq]

theorem bytes_eq_nil_iff {s : String} : bytes s = [] ↔ s = "" := by
  rw [bytes_eq, List.flatMap_eq_nil_iff, ← String.toList_eq_nil_iff]
  refine ⟨fun none => List.eq_nil_iff_forall_not_mem.2 fun c mem => ?_, fun empty => ?_⟩
  · have length : (charBytes c).length = c.utf8Size := by
      rw [charBytes, List.length_map, String.length_utf8EncodeChar]
    rw [none c mem] at length
    exact absurd c.utf8Size_pos (by rw [← length]; exact Nat.lt_irrefl 0)
  · rw [empty]
    exact fun _ mem => absurd mem List.not_mem_nil

theorem bytes_quoteTable (schema table : String) :
    bytes (quoteTable schema table) = Quote.encodeTable (bytes schema) (bytes table) := by
  have dot : bytes "." = ['.'] := by
    rw [bytes_eq]
    exact charBytes_of_isAscii (show ('.').toNat < 128 by decide)
  unfold quoteTable Quote.encodeTable
  by_cases plain : schema = ""
  · rw [if_pos (String.isEmpty_iff.2 plain), if_pos (bytes_eq_nil_iff.2 plain),
      bytes_quoteIdentifier]
    simp [Quote.encodePath, Quote.dotted]
  · rw [if_neg fun empty => plain (String.isEmpty_iff.1 empty),
      if_neg fun empty => plain (bytes_eq_nil_iff.1 empty), bytes_append, bytes_append,
      bytes_quoteIdentifier, bytes_quoteIdentifier, dot]
    simp [Quote.encodePath, Quote.dotted]

end Text

/-! ### Tokens in a text -/

namespace Sql

namespace Reader

theorem start_ne_atQuote (c quote : Char) (read : List Char) :
    (start c).1 ≠ atQuote quote read := by
  unfold start
  split_ifs <;> nofun

/-- Only a quote leads to where another may follow. -/
theorem eq_of_step_atQuote {reader : Reader} {c quote : Char} {read : List Char}
    (h : (reader.step c).1 = atQuote quote read) : c = quote := by
  cases reader with
  | between => exact absurd h (start_ne_atQuote c quote read)
  | inWord before =>
    simp only [step] at h
    split at h
    · cases h
    · exact absurd h (start_ne_atQuote c quote read)
  | inQuotes opened before =>
    simp only [step] at h
    split at h
    · rename_i same
      cases h
      exact same
    · cases h
  | atQuote opened before =>
    simp only [step] at h
    split at h
    · cases h
    · exact absurd h (start_ne_atQuote c quote read)

theorem getLast?_of_run_atQuote {text : List Char} {quote : Char} {read : List Char}
    (h : (between.run text).1 = atQuote quote read) : text.getLast? = some quote := by
  rcases List.eq_nil_or_concat text with rfl | ⟨front, c, rfl⟩
  · cases h
  · rw [List.concat_eq_append, run_append] at h
    rw [List.concat_eq_append, List.getLast?_concat, eq_of_step_atQuote h]

/-- A quote that is not the second of two opens a token. -/
theorem step_quote {reader : Reader} (outside : reader.isOutside = true) {quote : Char}
    (isQuote : Sql.isQuote quote = true) (first : ∀ read, reader ≠ atQuote quote read) :
    reader.step quote = (inQuotes quote [], reader.finish) := by
  cases reader with
  | between => exact start_quote isQuote
  | inWord read =>
    simp [step, start_quote isQuote, isWordCharacter_quote isQuote]
  | inQuotes => cases outside
  | atQuote opened read =>
    have other : quote ≠ opened := fun same => first read (by rw [same])
    simp [step, start_quote isQuote, other]

/-- What is not another quote ends a quoted token. -/
theorem run_atQuote {quote : Char} (read : List Char) {after : List Char}
    (ends : after.head? ≠ some quote) :
    ((atQuote quote read).run after).2 ++ ((atQuote quote read).run after).1.finish =
      .quoted quote read.reverse :: tokens after := by
  cases after with
  | nil => rfl
  | cons c rest =>
    have other : c ≠ quote := fun same => ends (by rw [List.head?_cons, same])
    simp [run_cons, step, other, tokens, finish]

end Reader

/-- A quoted text is one token in every text that does not put quotes of the same kind beside it. -/
theorem tokens_encode_between {quote : Char} (isQuote : Sql.isQuote quote = true)
    {before after : List Char} (outside : (Reader.between.run before).1.isOutside = true)
    (starts : before.getLast? ≠ some quote) (ends : after.head? ≠ some quote) (text : List Char) :
    tokens (before ++ Quote.encode quote text ++ after) =
      tokens before ++ .quoted quote text :: tokens after := by
  have first : ∀ read, (Reader.between.run before).1 ≠ .atQuote quote read :=
    fun read h => starts (Reader.getLast?_of_run_atQuote h)
  have token : (Reader.between.run before).1.run (Quote.encode quote text) =
      (.atQuote quote text.reverse, (Reader.between.run before).1.finish) := by
    show Reader.run _ (quote :: (Quote.double quote text ++ [quote])) = _
    rw [Reader.run_cons, Reader.step_quote outside isQuote first]
    simp [Reader.run_append, Reader.run_double quote isQuote, Reader.run, Reader.step]
  have later := Reader.run_atQuote text.reverse ends
  rw [List.reverse_reverse] at later
  rw [← later, tokens, tokens, List.append_assoc, Reader.run_append, Reader.run_append, token]
  simp only [List.append_assoc]

end Sql

/-! ### Whatever stands around them -/

open Quote in
/-- What is quoted is read back, character by character and byte by byte, whatever follows but
another such quote; in a text that is read from its start it is one token.  Names with dots between
them, as those of tables and columns are written, can be told from their text. -/
theorem quoted_tokens_are_read_back :
    (∀ quote text, Reads quote (encode quote text) text) ∧
    (∀ name, Reads '"' (quoteIdentifier name).toList name.toList ∧
      Reads '"' (Text.bytes (quoteIdentifier name)) (Text.bytes name)) ∧
    (∀ text, Reads '\'' (quoteString text).toList text.toList ∧
      Reads '\'' (Text.bytes (quoteString text)) (Text.bytes text)) ∧
    (∀ schema table, (quoteTable schema table).toList = encodeTable schema.toList table.toList ∧
      Text.bytes (quoteTable schema table) = encodeTable (Text.bytes schema) (Text.bytes table)) ∧
    (∀ schema table schema' table', encodeTable schema table = encodeTable schema' table' ↔
      schema = schema' ∧ table = table') ∧
    (∀ schema table schema' table', quoteTable schema table = quoteTable schema' table' ↔
      schema = schema' ∧ table = table') ∧
    (∀ (scope : SqlScope) d name table source f, scope.column name table source = .ok f →
      (scope.qualifier table source = .ok none ∧ f.chars d = encodePath name.toList []) ∨
        ∃ row, scope.qualifier table source = .ok (some row) ∧
          f.chars d = encodePath row.toList [name.toList]) ∧
    (∀ name more name' more', encodePath name more = encodePath name' more' ↔
      name = name' ∧ more = more') ∧
    (∀ d s, Reads '\'' ((Fragment.text (Sql.constant (.str s))).chars d) s.toList) ∧
    ∀ quote before text after, Sql.isQuote quote = true →
      (Sql.Reader.between.run before).1.isOutside = true → before.getLast? ≠ some quote →
      after.head? ≠ some quote →
        Sql.tokens (before ++ encode quote text ++ after) =
          Sql.tokens before ++ .quoted quote text :: Sql.tokens after := by
  have tables : ∀ schema table schema' table',
      encodeTable schema table = encodeTable schema' table' ↔ schema = schema' ∧ table = table' :=
    fun _ _ _ _ => ⟨encodeTable_inj, by rintro ⟨rfl, rfl⟩; rfl⟩
  refine ⟨reads_encode, fun name => ⟨reads_quoteIdentifier name, ?_⟩,
    fun text => ⟨reads_quoteString text, ?_⟩,
    fun schema table => ⟨toList_quoteTable schema table, Text.bytes_quoteTable schema table⟩,
    tables, fun schema table schema' table' => ?_,
    fun scope d name table source f => scope.chars_column d name table source,
    fun _ _ _ _ => ⟨encodePath_inj, by rintro ⟨rfl, rfl⟩; rfl⟩, fun d s => ?_,
    fun quote before text after isQuote outside starts ends =>
      Sql.tokens_encode_between isQuote outside starts ends text⟩
  · rw [Text.bytes_quoteIdentifier]
    exact reads_encode '"' _
  · rw [Text.bytes_quoteString]
    exact reads_encode '\'' _
  · rw [← String.toList_inj, toList_quoteTable, toList_quoteTable, tables, String.toList_inj,
      String.toList_inj]
  · rw [Fragment.chars_text]
    exact reads_quoteString s

/-- A name with quotes in it and at its end stays a name, before another name, within a text and as
a column of a joined row. -/
theorem name_with_quotes_is_read_back :
    ([' ', '"', 'x', '"'].head? ≠ some '"' ∧
      Quote.decode '"' (Quote.encode '"' ['a', '"', '"', ';', '"'] ++ [' ', '"', 'x', '"']) =
        some (['a', '"', '"', ';', '"'], [' ', '"', 'x', '"'])) ∧
    (['a', ' '].getLast? ≠ some '"' ∧
      Sql.tokens (['a', ' '] ++ Quote.encode '"' ['"', ')'] ++ [')']) =
        Sql.tokens ['a', ' '] ++ .quoted '"' ['"', ')'] :: Sql.tokens [')']) ∧
    ((⟨.postgres, .obj [], ["t0"], true⟩ : SqlScope).column "\"" "" (some (.joinParam 0)) =
        .ok (Fragment.text "\"t0\".\"\"\"\"") ∧
      (Fragment.text "\"t0\".\"\"\"\"").chars .postgres =
        Quote.encodePath ['t', '0'] [['"']]) := by
  have ⟨reading, _, _, _, _, _, columns, _, _, tokens⟩ := quoted_tokens_are_read_back
  have joined : (⟨.postgres, .obj [], ["t0"], true⟩ : SqlScope).column "\"" ""
      (some (.joinParam 0)) = .ok (Fragment.text "\"t0\".\"\"\"\"") := by cbv
  refine ⟨⟨by decide, reading '"' _ _ (by decide)⟩,
    ⟨by decide, tokens '"' _ _ _ (by decide) (by decide) (by decide) (by decide)⟩, joined, ?_⟩
  rcases columns _ .postgres _ _ _ _ joined with ⟨plain, _⟩ | ⟨row, qualified, text⟩
  · cases plain
  · cases qualified
    exact text

end FluentQuery
