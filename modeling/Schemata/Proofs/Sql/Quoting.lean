import Mathlib.Tactic.Tauto
import Schemata.Proofs.Sql.Layout
import Schemata.Sql.Quote

/-! # Quoted texts are read back

Every writer of an identifier or a string literal gives the text of one token, whose name or value is
the one that was written (`lexes_quotePostgres`, `lexes_quoteMysql`, `lexes_literalForPostgres`,
`lexes_literalForMysql`, `lexes_nameForPostgres`).  The text is read to its end whatever follows, as
long as this does not go on a name or a quoted text (`Stops`).  `quoted_texts_read_back` says so of
whole sources and of the first token of longer ones. -/

namespace Schemata.Text

theorem isUpper_iff_toNat {c : Char} : c.isUpper ↔ 65 ≤ c.toNat ∧ c.toNat ≤ 90 := by
  have h : c.isUpper = decide (c.val ≥ 'A'.val ∧ c.val ≤ 'Z'.val) := rfl
  rw [h, decide_eq_true_iff]
  exact and_congr UInt32.le_iff_toNat_le UInt32.le_iff_toNat_le

theorem isLower_iff_toNat {c : Char} : c.isLower ↔ 97 ≤ c.toNat ∧ c.toNat ≤ 122 := by
  have h : c.isLower = (decide (c.val ≥ 'a'.val) && decide (c.val ≤ 'z'.val)) := rfl
  rw [h, Bool.and_eq_true, decide_eq_true_iff, decide_eq_true_iff]
  exact and_congr UInt32.le_iff_toNat_le UInt32.le_iff_toNat_le

theorem toLower_of_not_isUpper {c : Char} (h : c.isUpper = false) : c.toLower = c := by
  unfold Char.toLower
  rw [dif_neg]
  exact of_decide_eq_false h

theorem toNat_toLower {c : Char} (h : c.isUpper) : c.toLower.toNat = c.toNat + 32 := by
  have hrange : c.val.toNat ≤ 90 := (isUpper_iff_toNat.1 h).2
  have hdiff : ('a'.val - 'A'.val).toNat = 32 := by decide
  unfold Char.toLower
  rw [dif_pos (of_decide_eq_true h)]
  change (c.val + ('a'.val - 'A'.val)).toNat = c.val.toNat + 32
  rw [UInt32.toNat_add]
  omega

theorem isAlpha_iff {c : Char} : c.isAlpha ↔ c.isUpper ∨ c.isLower := by
  have h : c.isAlpha = (c.isUpper || c.isLower) := rfl
  rw [h, Bool.or_eq_true]

/-- Joined texts are joined characters. -/
theorem toList_intercalate_ofList (separator : String) (texts : List (List Char)) :
    (separator.intercalate (texts.map String.ofList)).toList = separator.toList.intercalate texts := by
  have hid : String.toList ∘ String.ofList = id := funext fun _ => String.toList_ofList
  rw [String.toList_intercalate, List.map_map, hid, List.map_id]

/-- Joined lists have the elements of their parts, and those of what separates them. -/
theorem mem_intercalate_of_notMem {α : Type} {sep : List α} {x : α} (hx : x ∉ sep) {parts : List (List α)} :
    x ∈ sep.intercalate parts ↔ ∃ part ∈ parts, x ∈ part := by
  induction parts with
  | nil => simp
  | cons part parts ih =>
      cases parts with
      | nil => simp
      | cons next parts =>
          rw [List.intercalate_cons_cons, List.mem_append, List.mem_append, ih]
          simp [hx]

theorem mem_intercalate_iff {α : Type} {sep x : α} (hx : x ≠ sep) {parts : List (List α)} :
    x ∈ [sep].intercalate parts ↔ ∃ part ∈ parts, x ∈ part :=
  mem_intercalate_of_notMem (by simpa using hx)

end Schemata.Text

namespace Schemata.Sql

open Schemata.Text

variable {rules : Rules} {pos : Nat} {rest : List Char}

/-! ### What may follow a name or a quoted text -/

/-- A character that can go on a name or a quoted text that stands before it. -/
def goesOn (c : Char) : Bool := isNameChar c || c == '\'' || c == '"' || c == '\x60'

/-- Whatever starts here does not go on a name or a quoted text before it. -/
def Stops (rest : List Char) : Prop := ∀ c ∈ rest.head?, goesOn c = false

theorem stops_nil : Stops [] := by
  simp [Stops]

theorem stops_cons {c : Char} {r : List Char} : Stops (c :: r) ↔ goesOn c = false := by
  simp [Stops]

theorem Stops.head_ne (h : Stops rest) {q : Char} (hq : goesOn q = true) : rest.head? ≠ some q := by
  intro he
  have := h q he
  simp [hq] at this

/-- A test that tells two characters apart. -/
theorem ne_of_test {p : Char → Bool} {c d : Char} (hc : p c = true) (hd : p d = false) : c ≠ d := by
  rintro rfl
  simp [hc] at hd

theorem takeWhile_append_of_head {p : Char → Bool} {a : List Char} (ha : ∀ c ∈ a, p c)
    (hr : ∀ c ∈ rest.head?, p c = false) : (a ++ rest).takeWhile p = a := by
  rw [List.takeWhile_append_of_pos ha]
  cases rest with
  | nil => simp
  | cons c r => simp [hr c rfl]

theorem dropWhile_append_of_head {p : Char → Bool} {a : List Char} (ha : ∀ c ∈ a, p c)
    (hr : ∀ c ∈ rest.head?, p c = false) : (a ++ rest).dropWhile p = rest := by
  rw [List.dropWhile_append_of_pos ha]
  cases rest with
  | nil => simp
  | cons c r => simp [hr c rfl]

/-! ### Bare words -/

/-- A character that starts a word of ASCII letters. -/
def startsBareWord (c : Char) : Bool := c.isAlpha || c == '_'

/-- A character of such a word. -/
def isBareWordChar (c : Char) : Bool := c.isAlphanum || c == '_' || c == '$'

/-- A word of ASCII letters, digits, underscores and dollar signs. -/
def isBareWord : List Char → Bool
  | [] => false
  | c :: r => startsBareWord c && r.all isBareWordChar

/-- The code points of the characters of bare words. -/
theorem toNat_of_isBareWordChar {c : Char} (h : isBareWordChar c) :
    (48 ≤ c.toNat ∧ c.toNat ≤ 57) ∨ (65 ≤ c.toNat ∧ c.toNat ≤ 90) ∨
      (97 ≤ c.toNat ∧ c.toNat ≤ 122) ∨ c = '_' ∨ c = '$' := by
  simp only [isBareWordChar, Char.isAlphanum, Bool.or_eq_true, beq_iff_eq, isAlpha_iff,
    isUpper_iff_toNat, isLower_iff_toNat, Char.isDigit_iff_toNat] at h
  change ((((65 ≤ c.toNat ∧ c.toNat ≤ 90) ∨ (97 ≤ c.toNat ∧ c.toNat ≤ 122)) ∨
    (48 ≤ c.toNat ∧ c.toNat ≤ 57)) ∨ c = '_') ∨ c = '$' at h
  tauto

theorem isBareWordChar_of_startsBareWord {c : Char} (h : startsBareWord c) : isBareWordChar c := by
  simp only [startsBareWord, Bool.or_eq_true] at h
  simp only [isBareWordChar, Char.isAlphanum, Bool.or_eq_true]
  tauto

theorem toNat_lt_of_isBareWordChar {c : Char} (h : isBareWordChar c) : c.toNat < 0x80 := by
  rcases toNat_of_isBareWordChar h with h | h | h | rfl | rfl
  · omega
  · omega
  · omega
  · decide
  · decide

theorem isNameChar_of_isBareWordChar {c : Char} (h : isBareWordChar c) : isNameChar c := by
  have hlt := toNat_lt_of_isBareWordChar h
  simp only [isBareWordChar, Char.isAlphanum, Bool.or_eq_true] at h
  simp only [isNameChar, isAlphanumeric, isAlphabetic, isNumeric, hlt, if_true, Bool.or_eq_true]
  exact h

theorem startsName_of_startsBareWord {c : Char} (h : startsBareWord c) : startsName c := by
  have hlt := toNat_lt_of_isBareWordChar (isBareWordChar_of_startsBareWord h)
  simp only [startsName, isAlphabetic, hlt, if_true]
  exact h

theorem isBlank_of_isBareWordChar {c : Char} (h : isBareWordChar c) : isBlank c = false := by
  rcases toNat_of_isBareWordChar h with h | h | h | rfl | rfl
  · simp [isBlank]; omega
  · simp [isBlank]; omega
  · simp [isBlank]; omega
  · decide
  · decide

theorem isDigit_of_startsBareWord {c : Char} (h : startsBareWord c) : c.isDigit = false := by
  simp only [startsBareWord, Bool.or_eq_true, beq_iff_eq, isAlpha_iff, isUpper_iff_toNat,
    isLower_iff_toNat] at h
  rw [← Bool.not_eq_true, Char.isDigit_iff_toNat]
  show ¬(48 ≤ c.toNat ∧ c.toNat ≤ 57)
  rcases h with (h | h) | rfl
  · omega
  · omega
  · decide

/-- The characters that start a token of their own, a quoted text or a dollar-quoted string. -/
def markChars : List Char := ['(', ')', '[', ']', ',', ';', '=', ':', '\'', '$', '"', '\x60']

/-- Without a mark only words, numbers and symbols are read. -/
theorem scanToken_plain (d : Dialect) {c : Char} {r : List Char} (h : c ∉ markChars)
    (hr : r.head? ≠ some '\'') : scanToken (rulesOf d) pos c r = .ok (scanPlain c r) := by
  simp only [markChars, List.mem_cons, List.not_mem_nil, or_false, not_or] at h
  have hp : punctuation.lookup c = none := by
    simp [punctuation, List.lookup_cons, h, beq_eq_false_iff_ne.2]
  have hq : (rulesOf d).isIdentifierQuote c = false := by
    cases d <;> simp [Rules.isIdentifierQuote, rulesOf, mysqlRules, postgresRules, h]
  simp [scanToken, hp, hq, hr, h]

/-- No other reading than that of a word is tried on a word. -/
theorem scanToken_startsBareWord (d : Dialect) {c : Char} {r : List Char} (h : startsBareWord c)
    (hr : r.head? ≠ some '\'') : scanToken (rulesOf d) pos c r =
      .ok (plainToken .word (scanWhile isNameChar (c :: r))) := by
  have hmark : c ∉ markChars := by
    intro hc
    have none_starts : ∀ x ∈ markChars, startsBareWord x = false := by decide
    have := none_starts c hc
    simp [h] at this
  have hpoint : c ≠ '.' := ne_of_test h rfl
  simp [scanToken_plain d hmark hr, scanPlain, hpoint, isDigit_of_startsBareWord h,
    startsName_of_startsBareWord h]

/-- A comment starts with a mark of its own. -/
theorem scanComment_of_ne {c : Char} (r : List Char) (h1 : c ≠ '-') (h2 : c ≠ '#') (h3 : c ≠ '/') :
    scanComment rules (c :: r) = .ok none := by
  simp [scanComment, startsLineComment, h1, h2, h3]

/-- **Bare words are read back** as words. -/
theorem lexes_word (d : Dialect) {w : List Char} (h : isBareWord w) (hr : Stops rest) :
    Lexes (rulesOf d) (.word (String.ofList w)) w rest := by
  cases w with
  | nil => simp [isBareWord] at h
  | cons c t =>
      obtain ⟨hc, ht⟩ : startsBareWord c ∧ ∀ d ∈ t, isBareWordChar d := by
        simpa [isBareWord] using h
      have ne : ∀ {x}, startsBareWord x = false → c ≠ x := ne_of_test hc
      have name : ∀ d ∈ c :: t, isNameChar d := by
        intro d hd
        rcases List.mem_cons.1 hd with rfl | hd
        · exact isNameChar_of_isBareWordChar (isBareWordChar_of_startsBareWord hc)
        · exact isNameChar_of_isBareWordChar (ht d hd)
      have stop : ∀ d ∈ rest.head?, isNameChar d = false := by
        intro d hd
        have := hr d hd
        simp only [goesOn, Bool.or_eq_false_iff] at this
        exact this.1.1.1
      have quote : (t ++ rest).head? ≠ some '\'' := by
        cases t with
        | nil => exact hr.head_ne rfl
        | cons d t =>
            simpa using ne_of_test (ht d (by simp)) (by decide)
      refine ⟨c, t, rfl, isBlank_of_isBareWordChar (isBareWordChar_of_startsBareWord hc),
        scanComment_of_ne _ (ne rfl) (ne rfl) (ne rfl), fun pos => ?_⟩
      rw [scanToken_startsBareWord d hc quote, ← List.cons_append]
      simp only [plainToken, scanWhile, takeWhile_append_of_head name stop,
        dropWhile_append_of_head name stop]

/-! ### Quoted texts -/

/-- The text between the quotes of `enclose`. -/
def doubled (quote : Char) (cs : List Char) : List Char :=
  cs.flatMap fun c => if c = quote then [quote, quote] else [c]

theorem toList_enclose (quote : Char) (name : String) :
    (enclose quote name).toList = quote :: (doubled quote name.toList ++ [quote]) := by
  simp [enclose, replaceChar, doubled]

/-- A doubled quote is read as one, up to a single one. -/
theorem scanQuoted_doubled {quote : Char} (hr : rest.head? ≠ some quote) (cs : List Char) :
    scanQuoted quote none (doubled quote cs ++ quote :: rest) =
      some ⟨cs, doubled quote cs ++ [quote], rest⟩ := by
  induction cs with
  | nil =>
      cases rest with
      | nil => simp [doubled, scanQuoted]
      | cons d r =>
          have hd : d ≠ quote := by simpa using hr
          simp [doubled, scanQuoted, hd]
  | cons c cs ih =>
      obtain ⟨d, r, hdr⟩ : ∃ d r, doubled quote cs ++ quote :: rest = d :: r :=
        List.exists_cons_of_ne_nil (by simp)
      by_cases hc : c = quote
      · subst hc
        have e : doubled c (c :: cs) = c :: c :: doubled c cs := by simp [doubled]
        rw [e, List.cons_append, List.cons_append, scanQuoted, if_pos rfl, if_pos rfl, ih]
        simp [Scanned.map, Scanned.after]
      · have e : doubled quote (c :: cs) = c :: doubled quote cs := by simp [doubled, hc]
        have esc : escaped none c d = none := by simp [escaped]
        rw [e, List.cons_append, hdr, scanQuoted, if_neg hc, esc]
        dsimp only
        rw [← hdr, ih]
        simp [Scanned.map, Scanned.after]

/-- The text between the quotes of a string literal of MySQL. -/
def backslashed (cs : List Char) : List Char :=
  cs.flatMap fun c => if c = '\\' then ['\\', '\\'] else if c = '\'' then ['\\', '\''] else [c]

theorem toList_literalForMysql (value : String) :
    (literalForMysql value).toList = '\'' :: (backslashed value.toList ++ ['\'']) := by
  simp only [literalForMysql, replaceChar, String.toList_append, String.toList_ofList,
    List.flatMap_assoc]
  have e : (fun c => (if c = '\\' then "\\\\".toList else [c]).flatMap fun d =>
      if d = '\'' then "\\'".toList else [d]) =
      fun c => if c = '\\' then ['\\', '\\'] else if c = '\'' then ['\\', '\''] else [c] := by
    funext c
    by_cases h : c = '\\'
    · simp [h]
    · by_cases h' : c = '\'' <;> simp [h, h']
  rw [e]
  simp [backslashed]

/-- Escaped backslashes and quotes are read as themselves. -/
theorem scanQuoted_backslashed {f : Char → Char} (hf : f '\\' = '\\' ∧ f '\'' = '\'')
    (hr : rest.head? ≠ some '\'') (cs : List Char) :
    scanQuoted '\'' (some f) (backslashed cs ++ '\'' :: rest) =
      some ⟨cs, backslashed cs ++ ['\''], rest⟩ := by
  induction cs with
  | nil =>
      cases rest with
      | nil => simp [backslashed, scanQuoted]
      | cons d r =>
          have hd : d ≠ '\'' := by simpa using hr
          simp [backslashed, scanQuoted, hd]
  | cons c cs ih =>
      obtain ⟨d, r, hdr⟩ : ∃ d r, backslashed cs ++ '\'' :: rest = d :: r :=
        List.exists_cons_of_ne_nil (by simp)
      by_cases hb : c = '\\'
      · subst hb
        have e : backslashed ('\\' :: cs) = '\\' :: '\\' :: backslashed cs := by simp [backslashed]
        rw [e, List.cons_append, List.cons_append, scanQuoted, if_neg (by decide)]
        simp [escaped, hf, ih, Scanned.map, Scanned.after]
      by_cases hq : c = '\''
      · subst hq
        have e : backslashed ('\'' :: cs) = '\\' :: '\'' :: backslashed cs := by simp [backslashed]
        rw [e, List.cons_append, List.cons_append, scanQuoted, if_neg (by decide)]
        simp [escaped, hf, ih, Scanned.map, Scanned.after]
      · have e : backslashed (c :: cs) = c :: backslashed cs := by simp [backslashed, hb, hq]
        have esc : escaped (some f) c d = none := by simp [escaped, hb]
        rw [e, List.cons_append, hdr, scanQuoted, if_neg hq, esc]
        dsimp only
        rw [← hdr, ih]
        simp [Scanned.map, Scanned.after]

/-- A quote starts neither a gap nor a comment. -/
theorem quote_starts_no_gap (rules : Rules) {q : Char} (hq : q = '\'' ∨ q = '"' ∨ q = '\x60')
    (r : List Char) :
    isBlank q = false ∧ scanComment rules (q :: r) = .ok none := by
  rcases hq with rfl | rfl | rfl
  · exact ⟨by decide, scanComment_of_ne r (by decide) (by decide) (by decide)⟩
  · exact ⟨by decide, scanComment_of_ne r (by decide) (by decide) (by decide)⟩
  · exact ⟨by decide, scanComment_of_ne r (by decide) (by decide) (by decide)⟩

/-- **Quoted identifiers are read back.** -/
theorem lexes_quotedIdent (d : Dialect) {q : Char} (hq : (rulesOf d).isIdentifierQuote q)
    (hr : Stops rest) (name : String) :
    Lexes (rulesOf d) (.quotedIdent name q) (enclose q name).toList rest := by
  have cases_q : q = '"' ∨ q = '\x60' := by
    cases d <;> simp [Rules.isIdentifierQuote, rulesOf, mysqlRules, postgresRules] at hq <;> tauto
  have goes : goesOn q = true := by
    rcases cases_q with rfl | rfl <;> simp [goesOn]
  obtain ⟨hblank, hcomment⟩ := quote_starts_no_gap (rulesOf d) (.inr cases_q)
    (doubled q name.toList ++ [q] ++ rest)
  refine ⟨q, doubled q name.toList ++ [q], toList_enclose q name, hblank, hcomment, fun pos => ?_⟩
  have hp : punctuation.lookup q = none := by
    rcases cases_q with rfl | rfl <;> decide
  have hscan := scanQuoted_doubled (hr.head_ne goes) name.toList
  have h1 : q ≠ ':' := by rcases cases_q with rfl | rfl <;> decide
  have h2 : q ≠ '\'' := by rcases cases_q with rfl | rfl <;> decide
  have h3 : q ≠ '$' := by rcases cases_q with rfl | rfl <;> decide
  simp only [List.append_assoc, List.singleton_append]
  simp [scanToken, hp, h1, h2, h3, hq, hscan, quotedToken, Scanned.map, Scanned.after,
    toList_enclose]

theorem lexes_quotePostgres (hr : Stops rest) (name : String) :
    Lexes postgresRules (.quotedIdent name '"') (quotePostgres name).toList rest :=
  lexes_quotedIdent .postgresql rfl hr name

theorem lexes_quoteMysql (hr : Stops rest) (name : String) :
    Lexes mysqlRules (.quotedIdent name '\x60') (quoteMysql name).toList rest :=
  lexes_quotedIdent .mysql rfl hr name

theorem lexes_literalForPostgres (hr : Stops rest) (value : String) :
    Lexes postgresRules (.stringLit value) (literalForPostgres value).toList rest := by
  obtain ⟨hblank, hcomment⟩ := quote_starts_no_gap postgresRules (.inl rfl)
    (doubled '\'' value.toList ++ ['\''] ++ rest)
  refine ⟨'\'', doubled '\'' value.toList ++ ['\''], toList_enclose _ _, hblank, hcomment,
    fun pos => ?_⟩
  have hscan := scanQuoted_doubled (hr.head_ne (q := '\'') rfl) value.toList
  simp [scanToken, punctuation, List.lookup_cons, postgresRules, scanString, hscan, quotedToken,
    Scanned.map, Scanned.after, literalForPostgres, toList_enclose]

theorem lexes_literalForMysql (hr : Stops rest) (value : String) :
    Lexes mysqlRules (.stringLit value) (literalForMysql value).toList rest := by
  obtain ⟨hblank, hcomment⟩ := quote_starts_no_gap mysqlRules (.inl rfl)
    (backslashed value.toList ++ ['\''] ++ rest)
  refine ⟨'\'', backslashed value.toList ++ ['\''], toList_literalForMysql _, hblank, hcomment,
    fun pos => ?_⟩
  have hscan := scanQuoted_backslashed (f := unescapeChar) (by decide) (hr.head_ne (q := '\'') rfl) value.toList
  simp [scanToken, punctuation, List.lookup_cons, mysqlRules, scanString, hscan, quotedToken,
    Scanned.map, Scanned.after, toList_literalForMysql]

/-! ### Names written without quotes where possible -/

theorem isBareWord_of_isPlainName {name : String} (h : isPlainName name) :
    isBareWord name.toList := by
  unfold isPlainName at h
  cases hn : name.toList with
  | nil => simp [hn] at h
  | cons c r =>
      obtain ⟨hc, hr⟩ : startsPlainName c ∧ ∀ d ∈ r, isPlainNameChar d := by simpa [hn] using h
      have first : startsBareWord c := by
        simp only [startsPlainName, Bool.or_eq_true] at hc
        simp only [startsBareWord, Bool.or_eq_true, isAlpha_iff]
        tauto
      have others : ∀ d ∈ r, isBareWordChar d := by
        intro d hd
        have := hr d hd
        simp only [isPlainNameChar, Bool.or_eq_true] at this
        simp only [isBareWordChar, Char.isAlphanum, Bool.or_eq_true, isAlpha_iff]
        tauto
      simpa [isBareWord, first] using others

/-- The kind of the token that a name of PostgreSQL is written as. -/
def nameKind (name : String) : TokenKind :=
  if isPlainName name && !reservedWords.contains name then .word name else .quotedIdent name '"'

theorem ident?_nameKind (name : String) (span : Span) :
    Token.ident? ⟨nameKind name, span⟩ = some name := by
  unfold nameKind
  split <;> rfl

theorem lexes_nameForPostgres (hr : Stops rest) (name : String) :
    Lexes postgresRules (nameKind name) (nameForPostgres name).toList rest := by
  unfold nameKind nameForPostgres
  split
  · rename_i h
    obtain ⟨hplain, -⟩ := Bool.and_eq_true_iff.1 h
    have := lexes_word .postgresql (isBareWord_of_isPlainName hplain) hr
    rw [String.ofList_toList] at this
    exact this
  · exact lexes_quotePostgres hr name

/-! ### Sources and first tokens -/

/-- The first token of a source, if it has one and it can be read; what follows it is not looked
at. -/
def firstToken (rules : Rules) (source : List Char) : Except LexError (Option Token) :=
  (skipGap rules 0 source).bind fun p =>
    match p.2 with
    | [] => .ok none
    | c :: r =>
      (scanToken rules p.1 c r).map fun s => some ⟨s.value, ⟨p.1, p.1 + byteLength s.text⟩⟩

/-- The first token of a source that can be read is the first of its tokens. -/
theorem firstToken_of_tokenize {source : List Char} {tokens : List Token}
    (h : tokenize rules source = .ok tokens) : firstToken rules source = .ok tokens.head? := by
  rw [tokenize, tokensFrom_eq] at h
  unfold firstToken
  cases hg : skipGap rules 0 source with
  | error e => simp [hg, Except.bind] at h
  | ok p =>
      obtain ⟨start, cs⟩ := p
      simp only [hg, Except.bind] at h ⊢
      cases cs with
      | nil =>
          obtain rfl := Except.ok.inj h
          rfl
      | cons c r =>
          cases hs : scanToken rules start c r with
          | error e => simp [hs] at h
          | ok s =>
              simp only [hs] at h
              obtain ⟨rest, -, rfl⟩ := exists_of_map_eq_ok h
              simp [hs, Except.map]

/-- Further text that a quoted text or a bare word does not run into. -/
def Delimited (rest : List Char) : Prop :=
  ∃ c r, rest = c :: r ∧ c ∈ [' ', '\n', ',', ')', '.', ';']

theorem Delimited.stops (h : Delimited rest) : Stops rest := by
  obtain ⟨c, r, rfl, hc⟩ := h
  rw [stops_cons]
  revert c
  decide

/-- A text that is one token: alone it is the whole source, and before further text it is the first
token, with the same place. -/
structure ReadsBack (rules : Rules) (text : String) (kind : TokenKind) : Prop where
  alone : tokenize rules text.toList = .ok [⟨kind, ⟨0, byteLength text.toList⟩⟩]
  first : ∀ rest, Delimited rest →
    firstToken rules (text.toList ++ rest) = .ok (some ⟨kind, ⟨0, byteLength text.toList⟩⟩)

theorem readsBack_of_lexes {text : String} {kind : TokenKind}
    (h : ∀ rest, Stops rest → Lexes rules kind text.toList rest) : ReadsBack rules text kind := by
  constructor
  · have hl := tokensFrom_lexeme 0 (h [] stops_nil)
    rw [List.append_nil, tokensFrom_nil] at hl
    simpa [tokenize, Except.map] using hl
  · intro rest hrest
    obtain ⟨c, t, he, hblank, hcomment, hscan⟩ := h rest hrest.stops
    rw [he, List.cons_append, firstToken, skipGap_none hblank hcomment]
    simp [Except.bind, hscan, Except.map, he]

/-- **Whatever is quoted is read back exactly**: the four ways of quoting give one token with the
name or the value that was quoted, and a name of PostgreSQL that is quoted only where it has to be
gives one token that is read as this name where an identifier is expected. -/
theorem quoted_texts_read_back (s : String) :
    ReadsBack mysqlRules (literalForMysql s) (.stringLit s) ∧
    ReadsBack postgresRules (literalForPostgres s) (.stringLit s) ∧
    ReadsBack mysqlRules (quoteMysql s) (.quotedIdent s '\x60') ∧
    ReadsBack postgresRules (quotePostgres s) (.quotedIdent s '"') ∧
    ∃ kind, ReadsBack postgresRules (nameForPostgres s) kind ∧
      ∀ span, Token.ident? ⟨kind, span⟩ = some s :=
  ⟨readsBack_of_lexes fun _ h => lexes_literalForMysql h s,
    readsBack_of_lexes fun _ h => lexes_literalForPostgres h s,
    readsBack_of_lexes fun _ h => lexes_quoteMysql h s,
    readsBack_of_lexes fun _ h => lexes_quotePostgres h s,
    nameKind s, readsBack_of_lexes fun _ h => lexes_nameForPostgres h s, ident?_nameKind s⟩

end Schemata.Sql
