import Mathlib.Data.List.Find
import Schemata.Proofs.Sql.Places

/-! # The two readings of string literals

A string literal is read by the lexer, where it is a comment or the member of an enumeration, and once
more by `decodeLiteral`, where it is a default.  The two readings know different escapes: only the
lexer takes `\b` and `\Z` for control characters, and only `decodeLiteral` takes backslashes in double
quotes for escapes.  They agree on exactly the literals without these (`decodeLiteral_eq_iff`). -/

namespace Schemata.Sql

open Schemata.Text

variable {d : Dialect} {quote : Char} {cs : List Char} {s : Scanned (List Char)}

/-! ### Escapes -/

/-- The characters that stand after a backslash which no backslash escapes. -/
def escapedIn : List Char → List Char
  | [] => []
  | [_] => []
  | c :: d :: r => if c = '\\' then d :: escapedIn r else escapedIn (d :: r)

theorem escapedIn_cons {c : Char} (hc : c ≠ '\\') (r : List Char) :
    escapedIn (c :: r) = escapedIn r := by
  cases r with
  | nil => rfl
  | cons d r => rw [escapedIn, if_neg hc]

theorem escapedIn_backslash (d : Char) (r : List Char) :
    escapedIn ('\\' :: d :: r) = d :: escapedIn r := by
  rw [escapedIn, if_pos rfl]

/-- Where nothing is escaped there is no backslash, except perhaps at the end. -/
theorem backslash_notMem (hlast : cs.getLast? ≠ some '\\') (h : escapedIn cs = []) : '\\' ∉ cs := by
  fun_induction escapedIn cs with
  | case1 => simp
  | case2 c => simpa [eq_comm] using hlast
  | case3 => simp at h
  | case4 c e r hc ih =>
      rw [List.getLast?_cons_cons] at hlast
      simpa [Ne.symm hc] using ih hlast h

/-- Both readings take an escape of this character in the same way. -/
def isSharedEscape (c : Char) : Bool := c != 'b' && c != 'Z'

theorem decodeEscape_eq_iff (c : Char) : decodeEscape c = unescapeChar c ↔ isSharedEscape c := by
  simp only [isSharedEscape, Bool.and_eq_true, bne_iff_ne, ne_eq]
  unfold decodeEscape unescapeChar
  constructor
  · rintro h
    constructor
    · rintro rfl
      exact absurd h (by decide)
    · rintro rfl
      exact absurd h (by decide)
  · rintro ⟨hb, hz⟩
    simp only [hb, hz, if_false]

/-! ### Scans that differ in their escapes -/

theorem escaped_eq_some {unescape : Option (Char → Char)} {c e x : Char} :
    escaped unescape c e = some x ↔ c = '\\' ∧ ∃ f, unescape = some f ∧ f e = x := by
  by_cases hc : c = '\\'
  · simp [escaped, hc]
  · simp [escaped, hc]

/-- **Other escapes end a quoted text in the same place**, and give the same value if they take every
escaped character in the same way. -/
theorem scanQuoted_change {f g : Char → Char} (hquote : quote ≠ '\\')
    (h : scanQuoted quote (some f) cs = some s) :
    ∃ value, scanQuoted quote (some g) cs = some { s with value } ∧
      (value = s.value ↔ ∀ c ∈ escapedIn s.text, g c = f c) := by
  fun_induction scanQuoted quote (some f) cs generalizing s with
  | case1 => simp at h
  | case2 =>
      obtain rfl := Option.some.inj h
      exact ⟨[], by simp [scanQuoted], by simp [escapedIn]⟩
  | case3 => simp at h
  | case4 r ih =>
      obtain ⟨t, ht, rfl⟩ := Option.map_eq_some_iff.1 h
      obtain ⟨value, hscan, hiff⟩ := ih ht
      refine ⟨quote :: value, by simp [scanQuoted, hscan, Scanned.map, Scanned.after], ?_⟩
      have htext : escapedIn (quote :: quote :: t.text) = escapedIn t.text := by
        rw [escapedIn_cons hquote, escapedIn_cons hquote]
      simpa [Scanned.map, Scanned.after, htext] using hiff
  | case5 e r he =>
      obtain rfl := Option.some.inj h
      exact ⟨[], by simp [scanQuoted, he], by simp [escapedIn]⟩
  | case6 c e r hc x hx ih =>
      obtain ⟨t, ht, rfl⟩ := Option.map_eq_some_iff.1 h
      obtain ⟨value, hscan, hiff⟩ := ih ht
      obtain ⟨rfl, f', hf, rfl⟩ := escaped_eq_some.1 hx
      obtain rfl := Option.some.inj hf
      refine ⟨g e :: value, ?_, ?_⟩
      · simp [scanQuoted, hc, escaped, hscan, Scanned.map, Scanned.after]
      · simp [Scanned.map, Scanned.after, escapedIn_backslash, hiff]
  | case7 c e r hc hx ih =>
      obtain ⟨t, ht, rfl⟩ := Option.map_eq_some_iff.1 h
      obtain ⟨value, hscan, hiff⟩ := ih ht
      have hplain : c ≠ '\\' := by
        rintro rfl
        simp [escaped] at hx
      refine ⟨c :: value, ?_, ?_⟩
      · simp [scanQuoted, hc, escaped, hplain, hscan, Scanned.map, Scanned.after]
      · simp [Scanned.map, Scanned.after, escapedIn_cons hplain, hiff]

/-- Without backslashes no escapes matter. -/
theorem scanQuoted_plain {u v : Option (Char → Char)} (h : scanQuoted quote u cs = some s)
    (hplain : '\\' ∉ s.text) : scanQuoted quote v cs = some s := by
  fun_induction scanQuoted quote u cs generalizing s with
  | case1 => simp at h
  | case2 =>
      obtain rfl := Option.some.inj h
      simp [scanQuoted]
  | case3 => simp at h
  | case4 r ih =>
      obtain ⟨t, ht, rfl⟩ := Option.map_eq_some_iff.1 h
      have hrest : '\\' ∉ t.text := fun hmem => hplain (by simp [Scanned.after, Scanned.map, hmem])
      simp [scanQuoted, ih ht hrest]
  | case5 e r he =>
      obtain rfl := Option.some.inj h
      simp [scanQuoted, he]
  | case6 c e r hc x hx ih =>
      obtain ⟨t, ht, rfl⟩ := Option.map_eq_some_iff.1 h
      obtain ⟨rfl, -⟩ := escaped_eq_some.1 hx
      simp [Scanned.after] at hplain
  | case7 c e r hc hx ih =>
      obtain ⟨t, ht, rfl⟩ := Option.map_eq_some_iff.1 h
      have hrest : '\\' ∉ t.text := fun hmem => hplain (by simp [Scanned.after, Scanned.map, hmem])
      have hne : c ≠ '\\' := by
        rintro rfl
        simp [Scanned.after] at hplain
      simp [scanQuoted, hc, escaped, hne, ih ht hrest]

/-- The characters that a quoted text escapes. -/
def escapes (unescape : Option (Char → Char)) (text : List Char) : List Char :=
  if unescape.isSome then escapedIn text else []

theorem escapes_cons {unescape : Option (Char → Char)} {c : Char} (hc : c ≠ '\\') (r : List Char) :
    escapes unescape (c :: r) = escapes unescape r := by
  unfold escapes
  rw [escapedIn_cons hc]

theorem escapes_of_escaped {unescape : Option (Char → Char)} {c e x : Char}
    (h : escaped unescape c e = some x) (r : List Char) :
    c = '\\' ∧ escapes unescape (c :: e :: r) = e :: escapes unescape r := by
  obtain ⟨rfl, f, rfl, -⟩ := escaped_eq_some.1 h
  exact ⟨rfl, by simp [escapes, escapedIn_backslash]⟩

theorem escapes_of_not_escaped {unescape : Option (Char → Char)} {c e : Char}
    (h : escaped unescape c e = none) (r : List Char) :
    escapes unescape (c :: r) = escapes unescape r := by
  by_cases hback : c = '\\'
  · cases unescape with
    | none => rfl
    | some f => simp [escaped, hback] at h
  · exact escapes_cons hback r

/-- The length of a quoted text and the number of its quotes, in terms of its value, its doubled
quotes and its escapes. -/
theorem counts_scanQuoted {unescape : Option (Char → Char)} (hquote : quote ≠ '\\')
    (h : scanQuoted quote unescape cs = some s) :
    ∃ n, s.text.length = s.value.length + n + (escapes unescape s.text).length + 1 ∧
      s.text.count quote = 2 * n + (escapes unescape s.text).count quote + 1 := by
  fun_induction scanQuoted quote unescape cs generalizing s with
  | case1 => simp at h
  | case2 =>
      obtain rfl := Option.some.inj h
      exact ⟨0, by simp [escapes, escapedIn], by simp [escapes, escapedIn]⟩
  | case3 => simp at h
  | case4 r ih =>
      obtain ⟨t, ht, rfl⟩ := Option.map_eq_some_iff.1 h
      obtain ⟨n, hlength, hcount⟩ := ih ht
      refine ⟨n + 1, ?_, ?_⟩
      · simp only [Scanned.after, Scanned.map, List.cons_append, List.nil_append,
          escapes_cons hquote, List.length_cons]
        omega
      · simp only [Scanned.after, Scanned.map, List.cons_append, List.nil_append,
          escapes_cons hquote, List.count_cons_self]
        omega
  | case5 e r he =>
      obtain rfl := Option.some.inj h
      exact ⟨0, by simp [escapes, escapedIn], by simp [escapes, escapedIn]⟩
  | case6 c e r hc x hx ih =>
      obtain ⟨t, ht, rfl⟩ := Option.map_eq_some_iff.1 h
      obtain ⟨n, hlength, hcount⟩ := ih ht
      obtain ⟨rfl, hescapes⟩ := escapes_of_escaped hx t.text
      refine ⟨n, ?_, ?_⟩
      · simp only [Scanned.after, Scanned.map, List.cons_append, List.nil_append, hescapes,
          List.length_cons]
        omega
      · simp only [Scanned.after, Scanned.map, List.cons_append, List.nil_append, hescapes,
          List.count_cons_of_ne (Ne.symm hquote), List.count_cons]
        omega
  | case7 c e r hc hx ih =>
      obtain ⟨t, ht, rfl⟩ := Option.map_eq_some_iff.1 h
      obtain ⟨n, hlength, hcount⟩ := ih ht
      have hescapes := escapes_of_not_escaped hx t.text
      refine ⟨n, ?_, ?_⟩
      · simp only [Scanned.after, Scanned.map, List.cons_append, List.nil_append, hescapes,
          List.length_cons]
        omega
      · simp only [Scanned.after, Scanned.map, List.cons_append, List.nil_append, hescapes,
          List.count_cons_of_ne hc]
        omega

/-- **Escapes change a quoted text without escapes** wherever it has a backslash: with them it ends in
another place or has another value. -/
theorem scanQuoted_escapes_iff {f : Char → Char} (hquote : quote ≠ '\\')
    (h : scanQuoted quote none cs = some s) :
    scanQuoted quote (some f) cs = some s ↔ '\\' ∉ s.text := by
  constructor
  · intro hsome
    -- as many characters with as many quotes, so that each escape takes the place of a doubled quote
    obtain ⟨n, hlength, hcount⟩ := counts_scanQuoted hquote h
    obtain ⟨m, hlength', hcount'⟩ := counts_scanQuoted hquote hsome
    have hle := List.count_le_length (a := quote) (l := escapes (some f) s.text)
    simp only [escapes, Option.isSome_none, Bool.false_eq_true, if_false, List.length_nil,
      List.count_nil] at hlength hcount
    have hnone : escapedIn s.text = [] := by
      apply List.length_eq_zero_iff.1
      change (escapes (some f) s.text).length = 0
      omega
    refine backslash_notMem ?_ hnone
    rw [getLast?_text_scanQuoted h]
    simpa using hquote
  · exact scanQuoted_plain h

/-! ### The text of a literal -/

/-- The value of a text that starts with a quote, after what may introduce it, is what is scanned up to
the end of the text. -/
theorem decodeLiteral_quoted {backslash escapes : Bool} {introducer body : List Char}
    (hquote : isQuote quote) (hdouble : quote = '"' → backslash)
    (hintroducer : ∀ c ∈ introducer, isQuote c = false ∧ isBlank c = false)
    (hescapes : introducedEscapes backslash introducer = some escapes)
    (hlast : body.getLast? = some quote) (value : String) :
    decodeLiteral backslash (String.ofList (introducer ++ quote :: body)) = some value ↔
      ∃ v w, scanQuoted quote (if escapes then some decodeEscape else none) body = some ⟨v, w, []⟩ ∧
        String.ofList v = value := by
  have hblank : isBlank quote = false := by
    simp only [isQuote, Bool.or_eq_true, beq_iff_eq] at hquote
    rcases hquote with rfl | rfl <;> decide
  have htrimmed : trimmed (introducer ++ quote :: body) = introducer ++ quote :: body := by
    apply trimmed_eq_self
    · intro c hc
      cases introducer with
      | nil =>
          obtain rfl : quote = c := by simpa using hc
          exact hblank
      | cons e r =>
          obtain rfl : e = c := by simpa using hc
          exact (hintroducer e (by simp)).2
    · intro c hc
      rw [List.getLast?_append, List.getLast?_cons, hlast] at hc
      obtain rfl : quote = c := by simpa using hc
      exact hblank
  have hbefore : ∀ c ∈ introducer, (!isQuote c) = true := by
    intro c hc
    simp [(hintroducer c hc).1]
  have hat : ∀ c ∈ (quote :: body).head?, (!isQuote c) = false := by
    simpa using hquote
  have hdecoded : ¬(quote = '"' ∧ (!backslash) = true) := by
    rintro ⟨rfl, hno⟩
    simp [hdouble rfl] at hno
  unfold decodeLiteral
  rw [String.toList_ofList, htrimmed]
  simp only [takeWhile_append_of_head hbefore hat, dropWhile_append_of_head hbefore hat, hescapes,
    if_neg hdecoded]
  cases scanQuoted quote (if escapes then some decodeEscape else none) body with
  | none => simp
  | some scanned =>
      obtain ⟨v, w, rest⟩ := scanned
      cases rest <;> simp

/-- Whether the text of a token is a literal between quotes. -/
def isLiteral (d : Dialect) : List Char → Bool
  | '\'' :: _ => true
  | '"' :: _ => d == .mysql
  | c :: '\'' :: _ => d == .postgresql && (c == 'e' || c == 'E')
  | _ => false

/-- Whether a literal has no escape that only one reading knows. -/
def readsAlike (d : Dialect) (raw : List Char) : Bool :=
  match raw with
  | '"' :: _ => !raw.contains '\\'
  | '\'' :: _ => d == .postgresql || (escapedIn raw).all isSharedEscape
  | _ => (escapedIn raw).all isSharedEscape

/-- The value of a text that starts with a quote. -/
theorem decodeLiteral_bare {backslash : Bool} {body : List Char} (hquote : isQuote quote)
    (hdouble : quote = '"' → backslash) (hlast : body.getLast? = some quote) (value : String) :
    decodeLiteral backslash (String.ofList (quote :: body)) = some value ↔
      ∃ v w, scanQuoted quote (if backslash then some decodeEscape else none) body =
          some ⟨v, w, []⟩ ∧ String.ofList v = value := by
  have hnone : ∀ c ∈ ([] : List Char), isQuote c = false ∧ isBlank c = false := by simp
  exact decodeLiteral_quoted hquote hdouble hnone rfl hlast value

/-- A literal whose escapes both readings take, or do not take, is decoded to its value. -/
theorem decoded_escapes {text v : List Char}
    (h : scanQuoted '\'' (some unescapeChar) text = some ⟨v, text, []⟩) :
    (∃ v' w, scanQuoted '\'' (some decodeEscape) text = some ⟨v', w, []⟩ ∧
        String.ofList v' = String.ofList v) ↔
      (escapedIn text).all isSharedEscape := by
  obtain ⟨value, hscan, hiff⟩ := scanQuoted_change (g := decodeEscape) (by decide) h
  have hall : (∀ c ∈ escapedIn text, decodeEscape c = unescapeChar c) ↔
      (escapedIn text).all isSharedEscape := by
    simp only [decodeEscape_eq_iff, List.all_eq_true]
  rw [← hall, ← hiff]
  simp [hscan, String.ofList_inj]

/-- A literal in double quotes is decoded to its value if it has no backslash. -/
theorem decoded_double {text v : List Char} (h : scanQuoted '"' none text = some ⟨v, text, []⟩) :
    (∃ v' w, scanQuoted '"' (some decodeEscape) text = some ⟨v', w, []⟩ ∧
        String.ofList v' = String.ofList v) ↔
      '\\' ∉ text := by
  rw [← scanQuoted_escapes_iff (f := decodeEscape) (by decide) h]
  constructor
  · rintro ⟨v', w, hscan, hv⟩
    obtain rfl : w = text := by simpa using (reads_scanQuoted hscan).2
    rw [hscan, String.ofList_inj.1 hv]
  · intro hscan
    exact ⟨v, text, hscan, rfl⟩

/-! ### Both readings of a token -/

/-- What was scanned before some text is scanned of the text alone. -/
theorem scanQuoted_alone {unescape : Option (Char → Char)} {v text rest : List Char}
    (h : scanQuoted quote unescape cs = some ⟨v, text, rest⟩) :
    scanQuoted quote unescape text = some ⟨v, text, []⟩ ∧ text.getLast? = some quote := by
  have := scanQuoted_text (r := []) h (by simp)
  rw [List.append_nil] at this
  exact ⟨this, getLast?_text_scanQuoted h⟩

theorem scanToken_singleQuote {rules : Rules} {pos : Nat} {r : List Char} :
    scanToken rules pos '\'' r =
      quotedToken ['\''] .openString pos .stringLit (scanString rules.backslashEscapes r) := by
  simp [scanToken, punctuation, List.lookup_cons]

theorem scanToken_doubleQuote {pos : Nat} {r : List Char} :
    scanToken mysqlRules pos '"' r =
      quotedToken ['"'] .openIdentifier pos (.quotedIdent · '"') (scanQuoted '"' none r) := by
  simp [scanToken, punctuation, List.lookup_cons, mysqlRules, Rules.isIdentifierQuote]

theorem scanToken_escapeLiteral {pos : Nat} {c : Char} {r : List Char} (hc : c = 'e' ∨ c = 'E') :
    scanToken postgresRules pos c ('\'' :: r) =
      quotedToken [c, '\''] .openString (pos + 1) .stringLit (scanString true r) := by
  rcases hc with rfl | rfl <;>
    simp [scanToken, punctuation, List.lookup_cons, postgresRules, Rules.isIdentifierQuote]

/-- **The two readings of a literal** agree exactly if it has no escape that only one of them
knows. -/
theorem decodeLiteral_eq_iff {source : List Char} {tokens : List Token}
    (h : tokenize (rulesOf d) source = .ok tokens) {t : Token} (ht : t ∈ tokens)
    (hliteral : isLiteral d (slice source t.span.start t.span.stop)) :
    ∃ value, t.string? = some value ∧
      (decodeLiteral (d == .mysql) (String.ofList (slice source t.span.start t.span.stop)) =
          some value ↔
        readsAlike d (slice source t.span.start t.span.stop)) := by
  obtain ⟨w, rest, hslice, c, r, rfl, -, -, hscan⟩ := exists_lexeme h ht
  rw [hslice] at hliteral ⊢
  have hscan := hscan 0
  unfold isLiteral at hliteral
  split at hliteral
  · rename_i tail heq
    obtain ⟨rfl, rfl⟩ := List.cons.inj heq
    obtain ⟨v, text, hread, hkind, htext⟩ :=
      quotedToken_eq_ok.1 (scanToken_singleQuote.symm.trans hscan)
    obtain rfl : text = r := (List.cons.inj htext).2
    obtain ⟨halone, hlast⟩ := scanQuoted_alone hread
    refine ⟨String.ofList v, by simp [Token.string?, ← hkind], ?_⟩
    refine (decodeLiteral_bare rfl (by simp) hlast _).trans ?_
    cases d with
    | mysql =>
        refine (decoded_escapes halone).trans ?_
        simp [readsAlike, escapedIn_cons]
    | postgresql =>
        have hread : (∃ v' w, scanQuoted '\'' none text = some ⟨v', w, []⟩ ∧
            String.ofList v' = String.ofList v) ↔ True :=
          iff_true_intro ⟨v, text, halone, rfl⟩
        exact hread.trans (by simp [readsAlike])
  · rename_i tail heq
    obtain ⟨rfl, rfl⟩ := List.cons.inj heq
    obtain rfl : d = .mysql := by simpa using hliteral
    obtain ⟨v, text, hread, hkind, htext⟩ :=
      quotedToken_eq_ok.1 (scanToken_doubleQuote.symm.trans hscan)
    obtain rfl : text = r := (List.cons.inj htext).2
    obtain ⟨halone, hlast⟩ := scanQuoted_alone hread
    refine ⟨String.ofList v, by simp [Token.string?, ← hkind], ?_⟩
    refine (decodeLiteral_bare rfl (by simp) hlast _).trans ((decoded_double halone).trans ?_)
    simp [readsAlike]
  · rename_i tail _ _ heq
    obtain ⟨rfl, rfl⟩ := List.cons.inj heq
    simp only [Bool.and_eq_true, Bool.or_eq_true, beq_iff_eq] at hliteral
    obtain ⟨rfl, hc⟩ := hliteral
    obtain ⟨v, text, hread, hkind, htext⟩ :=
      quotedToken_eq_ok.1 ((scanToken_escapeLiteral hc).symm.trans hscan)
    obtain rfl : text = tail := (List.cons.inj (List.cons.inj htext).2).2
    obtain ⟨halone, hlast⟩ := scanQuoted_alone hread
    refine ⟨String.ofList v, by simp [Token.string?, ← hkind], ?_⟩
    have hescapes : introducedEscapes false [c] = some true := by
      rcases hc with rfl | rfl <;> rfl
    have hintroducer : ∀ e ∈ [c], isQuote e = false ∧ isBlank e = false := by
      rcases hc with rfl | rfl <;> decide
    rw [← List.singleton_append]
    refine (decodeLiteral_quoted (by decide) (by decide) hintroducer hescapes hlast _).trans
      ((decoded_escapes halone).trans ?_)
    rcases hc with rfl | rfl <;> simp [readsAlike, escapedIn_cons]
  · simp at hliteral

/-- Both readings take an escaped line feed and a doubled quote. -/
theorem decodeLiteral_lineFeed :
    ∃ value, Token.string? ⟨.stringLit "it's\n", ⟨3, 12⟩⟩ = some value ∧
      (decodeLiteral true (String.ofList (slice "in 'it''s\\n'".toList 3 12)) = some value ↔
        readsAlike .mysql (slice "in 'it''s\\n'".toList 3 12)) := by
  have htokens : tokenize (rulesOf .mysql) "in 'it''s\\n'".toList =
      .ok [⟨.word "in", ⟨0, 2⟩⟩, ⟨.stringLit "it's\n", ⟨3, 12⟩⟩] := by
    decide +kernel
  have hmem : (⟨.stringLit "it's\n", ⟨3, 12⟩⟩ : Token) ∈
      [⟨.word "in", ⟨0, 2⟩⟩, ⟨.stringLit "it's\n", ⟨3, 12⟩⟩] := by
    simp
  exact decodeLiteral_eq_iff htokens hmem (by decide)

/-- An escaped `b` is a backspace to the lexer, and the letter to `decodeLiteral`. -/
theorem decodeLiteral_backspace :
    tokenize mysqlRules "'\\b'".toList = .ok [⟨.stringLit "\x08", ⟨0, 4⟩⟩] ∧
      isLiteral .mysql (slice "'\\b'".toList 0 4) ∧
      decodeLiteral true (String.ofList (slice "'\\b'".toList 0 4)) = some "b" := by
  decide +kernel

end Schemata.Sql
