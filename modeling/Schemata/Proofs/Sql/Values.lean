import Schemata.Proofs.Sql.Literals
import Schemata.Proofs.Sql.Numeral

/-! # The values of written texts

What the texts denote that values are written as: a number denotes itself (`ofText_of_isNumber`), a
literal its value (`ofText_literalForMysql`, `ofText_literalForPostgres`), and the current time
itself with its digits (`ofText_currentTimestampText`).  A number whose digits are one token fills
its text with the tokens of an operand (`fills_number`). -/

namespace Schemata.Sql

open Schemata.Text Layout

variable {d : Dialect} {cs : List Char}

/-! ### Numbers -/

theorem value_of_words {key : String} {value : DefaultValue}
    (h : DefaultValue.words.lookup key = some value) :
    value = .null ∨ (∃ b, value = .bool b) ∨ value = .currentDate := by
  have := mem_of_lookup h
  simp only [DefaultValue.words, List.mem_cons, Prod.mk.injEq, List.not_mem_nil, or_false] at this
  rcases this with ⟨-, rfl⟩ | ⟨-, rfl⟩ | ⟨-, rfl⟩ | ⟨-, rfl⟩ | ⟨-, rfl⟩ <;> simp

/-- A default that is classified as a number is written as one. -/
theorem number_of_ofText {d : Dialect} {text n : String}
    (h : DefaultValue.ofText d text = .number n) :
    isNumber n.toList ∧ n = String.ofList (trimmed text.toList) := by
  unfold DefaultValue.ofText at h
  dsimp only at h
  split at h
  · rename_i value hw
    rcases value_of_words hw with rfl | ⟨b, rfl⟩ | rfl <;> simp at h
  · split at h
    · rename_i hn
      obtain rfl := DefaultValue.number.inj h
      exact ⟨by rwa [String.toList_ofList], rfl⟩
    · split at h
      · simp at h
      · split at h
        · simp at h
        · split at h <;> simp at h

theorem isNumber_of_ofText {d : Dialect} {text n : String}
    (h : DefaultValue.ofText d text = .number n) : isNumber n.toList :=
  (number_of_ofText h).1

theorem toList_ne_of_isNumber (h : isNumber cs) : ∀ c ∈ cs, isNumeralChar c :=
  (numeral_of_isNumber h).1.1

theorem trimmed_of_isNumber (h : isNumber cs) : trimmed cs = cs := by
  have hall := toList_ne_of_isNumber h
  exact trimmed_eq_self (fun c hc => isBlank_of_isNumeralChar (hall c (List.mem_of_mem_head? hc)))
    fun c hc => isBlank_of_isNumeralChar (hall c (List.mem_of_getLast? hc))

/-- No word that denotes a value is a number. -/
theorem lookup_words_of_numeral {text : String} (h : ∀ c ∈ text.toList, isNumeralChar c) :
    DefaultValue.words.lookup (asciiLower text) = none := by
  have table : ∀ e ∈ DefaultValue.words, e.1.toList.all isNumeralChar = false := by decide
  cases hl : DefaultValue.words.lookup (asciiLower text) with
  | none => rfl
  | some value =>
      have := table _ (mem_of_lookup hl)
      rw [numeral_asciiLower h] at this
      simp at this

/-- **A number denotes itself.** -/
theorem ofText_of_isNumber (d : Dialect) {text : String} (h : isNumber text.toList) :
    DefaultValue.ofText d text = .number text := by
  unfold DefaultValue.ofText
  simp only [trimmed_of_isNumber h, String.ofList_toList,
    lookup_words_of_numeral (toList_ne_of_isNumber h), h, if_true]

/-- Whether the digits of a number, after its sign, are one token. -/
def isOneToken (cs : List Char) : Bool :=
  match afterSign cs with
  | [] => false
  | c :: r => (scanPlain c r).rest.isEmpty

theorem afterSign_append {sign r : List Char} {c : Char} (hsign : sign ∈ [[], ['+'], ['-']])
    (hc : isDecimal c ∨ c = '.') : afterSign (sign ++ c :: r) = c :: r := by
  have hne : ¬(c = '+' ∨ c = '-') := by
    rcases hc with hc | rfl
    · exact not_or.2 ⟨ne_of_test hc (by decide), ne_of_test hc (by decide)⟩
    · decide
  simp only [List.mem_cons, List.not_mem_nil, or_false] at hsign
  rcases hsign with rfl | rfl | rfl <;> simp [afterSign, hne]

/-- A character of a numeral is read before the rest of it. -/
theorem lexes_numeral (d : Dialect) {c : Char} {t rest : List Char} {kind : TokenKind}
    (h : ∀ e ∈ c :: (t ++ rest), isNumeralChar e) (hm : singleMinus (c :: (t ++ rest)))
    (hscan : scanPlain c (t ++ rest) = ⟨kind, c :: t, rest⟩) :
    Lexes (rulesOf d) kind (c :: t) rest :=
  ⟨c, t, rfl, isBlank_of_isNumeralChar (h c (by simp)), scanComment_numeral h hm,
    fun _ => by rw [scanToken_numeral d h, hscan]⟩

/-- **A number of one token** fills its text with its sign and the token. -/
theorem fills_number (d : Dialect) (h : isNumber cs) (hone : isOneToken cs) :
    ∃ sign k, Fills d cs (sign ++ [k]) ∧ sign ∈ [[], [.symbol '+'], [.symbol '-']] ∧
      isOperandKind k := by
  obtain ⟨⟨hall, hm⟩, sign, c, r, rfl, hsign, hc⟩ := numeral_of_isNumber h
  rw [isOneToken, afterSign_append hsign hc] at hone
  have hscan : scanPlain c r = ⟨(scanPlain c r).value, c :: r, []⟩ := by
    have happ := (reads_scanPlain c r).2
    have hrest : (scanPlain c r).rest = [] := by simpa using hone
    rw [hrest, List.append_nil] at happ
    rw [← happ, ← hrest]
  have hdigits : Lexes (rulesOf d) (scanPlain c r).value (c :: r) [] := by
    refine lexes_numeral d (fun e he => hall e ?_) ?_ (by simpa using hscan)
    · exact List.mem_append_right _ (by simpa using he)
    · simpa using singleMinus_of_append hm
  have hkind := isOperandKind_scanPlain r hc
  have signed : ∀ s ∈ ['+', '-'], sign = [s] →
      Fills d (sign ++ c :: r) ([.symbol s] ++ [(scanPlain c r).value]) := by
    rintro s hs rfl
    have hfits : Fits (rulesOf d) [] [.lexeme (.symbol s) [s],
        .lexeme (scanPlain c r).value (c :: r)] := by
      refine ⟨?_, hdigits, trivial⟩
      have := lexes_numeral d hall hm (scanPlain_sign hs ([] ++ c :: r))
      simpa [Piece.text] using this
    exact ⟨_, by simp [Piece.text], rfl, ⟨⟨_, _, _, rfl⟩, [_], _, _, rfl⟩,
      fun rest hr => hfits.exchange hr⟩
  simp only [List.mem_cons, List.not_mem_nil, or_false] at hsign
  rcases hsign with rfl | rfl | rfl
  · exact ⟨[], _, .of_lexes hdigits, by simp, hkind⟩
  · exact ⟨_, _, signed '+' (by simp) rfl, by simp, hkind⟩
  · exact ⟨_, _, signed '-' (by simp) rfl, by simp, hkind⟩

theorem scanNumber_digits (h : ∀ c ∈ cs, c.isDigit) : scanNumber cs = (cs, []) := by
  have hnone : ∀ c ∈ ([] : List Char).head?, c.isDigit = false := by simp
  have htake := takeWhile_append_of_head h hnone
  have hdrop := dropWhile_append_of_head h hnone
  rw [List.append_nil] at htake hdrop
  simp [scanNumber, scanWhile, htake, hdrop, scanFraction, scanExponent]

/-- **Digits are one token**, which is a number. -/
theorem fills_digits (d : Dialect) (hne : cs ≠ []) (h : ∀ c ∈ cs, c.isDigit) :
    Fills d cs [.number (String.ofList cs)] := by
  obtain ⟨c, r, rfl⟩ := List.exists_cons_of_ne_nil hne
  have hdecimal : ∀ e ∈ c :: r, isDecimal e := fun e he => isDecimal_of_isDigit (h e he)
  have hminus := singleMinus_append (minus_notMem_of_isDecimal hdecimal) (b := []) rfl
  have hscan : scanPlain c (r ++ []) = ⟨.number (String.ofList (c :: r)), c :: r, []⟩ := by
    rw [List.append_nil, scanPlain, if_pos (by simp [h c (by simp)]), scanNumber_digits h]
    rfl
  refine .of_lexes (lexes_numeral d (fun e he => ?_) (by simpa using hminus) hscan)
  exact isNumeralChar_of_isDecimal (hdecimal e (by simpa using he))

/-! ### Literals -/

/-- A text between quotes has no blanks at its ends. -/
theorem trimmed_quoted (body : List Char) :
    trimmed ('\'' :: (body ++ ['\''])) = '\'' :: (body ++ ['\'']) := by
  apply trimmed_eq_self
  · simpa using (by decide : isBlank '\'' = false)
  · rw [List.getLast?_cons, List.getLast?_append]
    simpa using (by decide : isBlank '\'' = false)

/-- A text between quotes is neither a word nor a number. -/
theorem ofText_quoted {body : List Char} {value : String}
    (hdecode : decodeLiteral (d = .mysql) (String.ofList ('\'' :: (body ++ ['\'']))) = some value) :
    DefaultValue.ofText d (String.ofList ('\'' :: (body ++ ['\'']))) = .string value := by
  have hword : DefaultValue.words.lookup (asciiLower (String.ofList ('\'' :: (body ++ ['\''])))) =
      none := by
    have table : ∀ e ∈ DefaultValue.words, e.1.toList.head? ≠ some '\'' := by decide
    cases hl : DefaultValue.words.lookup (asciiLower (String.ofList ('\'' :: (body ++ ['\''])))) with
    | none => rfl
    | some v =>
        refine absurd ?_ (table _ (mem_of_lookup hl))
        simp only [asciiLower, String.toList_ofList, List.map_cons, List.head?_cons]
        rfl
  have hnumber : isNumber ('\'' :: (body ++ ['\''])) = false := by
    cases hn : isNumber ('\'' :: (body ++ ['\''])) with
    | false => rfl
    | true =>
        have := toList_ne_of_isNumber hn '\'' (by simp)
        exact absurd this (by decide)
  unfold DefaultValue.ofText
  simp only [String.toList_ofList, trimmed_quoted, hword, hnumber, hdecode]
  rfl

/-- **A literal of MySQL denotes its value.** -/
theorem ofText_literalForMysql (value : String) :
    DefaultValue.ofText .mysql (literalForMysql value) = .string value := by
  have htext : literalForMysql value = String.ofList ('\'' :: (backslashed value.toList ++ ['\''])) := by
    rw [← toList_literalForMysql, String.ofList_toList]
  rw [htext]
  apply ofText_quoted
  rw [decodeLiteral_bare (by decide) (by simp) (by simp)]
  exact ⟨_, _, scanQuoted_backslashed (by decide) (by simp) value.toList, String.ofList_toList⟩

/-- **A literal of PostgreSQL denotes its value.** -/
theorem ofText_literalForPostgres (value : String) :
    DefaultValue.ofText .postgresql (literalForPostgres value) = .string value := by
  have htext : literalForPostgres value =
      String.ofList ('\'' :: (doubled '\'' value.toList ++ ['\''])) := by
    rw [← toList_enclose, String.ofList_toList]
    rfl
  rw [htext]
  apply ofText_quoted
  rw [decodeLiteral_bare (by decide) (by simp) (by simp)]
  exact ⟨_, _, scanQuoted_doubled (by simp) value.toList, String.ofList_toList⟩

/-! ### The current time -/

/-- The digits of a time as it is written. -/
def IsPrecision (precision : Option String) : Prop :=
  ∀ p, precision = some p → p ≠ "" ∧ ∀ c ∈ p.toList, isDecimal c

theorem isPrecision_of_digitArgument? {precision : Option String}
    (h : digitArgument? cs = some precision) : IsPrecision precision := by
  rintro p rfl
  unfold digitArgument? at h
  split at h
  · simp at h
  · dsimp only at h
    split at h
    · simp only [Option.some.injEq, Option.ite_none_left_eq_some] at h
      obtain ⟨hne, rfl⟩ := h
      rw [String.toList_ofList]
      refine ⟨fun he => hne ?_, isDecimal_of_mem_takeWhile _⟩
      simpa using congrArg String.toList he
    · simp at h
  · simp at h

/-- The precision of a time is a number of digits. -/
theorem isPrecision_of_ofText {text : String} {precision : Option String}
    (h : DefaultValue.ofText d text = .currentTimestamp precision) : IsPrecision precision := by
  unfold DefaultValue.ofText at h
  dsimp only at h
  split at h
  · rename_i value hw
    rcases value_of_words hw with rfl | ⟨b, rfl⟩ | rfl <;> simp at h
  · split at h
    · simp at h
    · split at h
      · simp at h
      · split at h
        · rename_i hc
          obtain rfl := DefaultValue.currentTimestamp.inj h
          unfold currentTime? at hc
          dsimp only at hc
          split at hc
          · exact isPrecision_of_digitArgument? hc
          · simp at hc
        · split at h <;> simp at h

theorem toList_currentTimestampText (p : String) :
    (currentTimestampText (some p)).toList =
      "CURRENT_TIMESTAMP".toList ++ '(' :: (p.toList ++ [')']) := by
  have hname : "CURRENT_TIMESTAMP(".toList = "CURRENT_TIMESTAMP".toList ++ ['('] := rfl
  unfold currentTimestampText
  simp only [String.toList_append, hname]
  simp

/-- The characters of the current time are neither blank nor quotes. -/
theorem tight_currentTimestampText {p : String} (h : ∀ c ∈ p.toList, isDecimal c) :
    ∀ c ∈ (currentTimestampText (some p)).toList, isBlank c = false ∧ isQuote c = false := by
  have hword : ∀ c ∈ "CURRENT_TIMESTAMP".toList ++ ['(', ')'], isBlank c = false ∧ isQuote c = false := by
    decide
  have hquote : ∀ c, isDecimal c → isQuote c = false := by
    intro c hc
    have hsingle : c ≠ '\'' := ne_of_test hc (by decide)
    have hdouble : c ≠ '"' := ne_of_test hc (by decide)
    simp [isQuote, hsingle, hdouble]
  rw [toList_currentTimestampText]
  intro c hc
  simp only [List.mem_append, List.mem_cons, List.not_mem_nil, or_false] at hc
  rcases hc with hc | rfl | hc | rfl
  · exact hword c (List.mem_append_left _ hc)
  · exact hword _ (by simp)
  · exact ⟨isBlank_of_isDecimal (h c hc), hquote c (h c hc)⟩
  · exact hword _ (by simp)

theorem trimmed_currentTimestampText {p : String} (h : ∀ c ∈ p.toList, isDecimal c) :
    trimmed (currentTimestampText (some p)).toList = (currentTimestampText (some p)).toList :=
  trimmed_eq_self (fun c hc => (tight_currentTimestampText h c (List.mem_of_mem_head? hc)).1)
    fun c hc => (tight_currentTimestampText h c (List.mem_of_getLast? hc)).1

/-- The current time is read with its digits. -/
theorem currentTime?_currentTimestampText {p : String} (hne : p ≠ "")
    (h : ∀ c ∈ p.toList, isDecimal c) :
    currentTime? (currentTimestampText (some p)).toList = some (some p) := by
  have hname : ∀ c ∈ "CURRENT_TIMESTAMP".toList, (!(c == '(' || isBlank c)) = true := by decide
  have hopening : ∀ c ∈ ('(' :: (p.toList ++ [')'])).head?, (!(c == '(' || isBlank c)) = false := by
    simp
  have hfold : currentTimeFunctions.contains
      (String.ofList ("CURRENT_TIMESTAMP".toList.map foldLetter)) = true := by decide
  have hinner : trimLeft (p.toList ++ [')']) = p.toList ++ [')'] := by
    apply trimLeft_eq_self
    intro c hc
    cases hp : p.toList with
    | nil =>
        obtain rfl : ')' = c := by simpa [hp] using hc
        decide
    | cons e r =>
        obtain rfl : e = c := by simpa [hp] using hc
        exact isBlank_of_isDecimal (h e (by simp [hp]))
  have hclosing : ∀ c ∈ [')'].head?, isDecimal c = false := by decide
  have hnonempty : p.toList.isEmpty = false := by simpa using hne
  have hgroup : trimLeft ('(' :: (p.toList ++ [')'])) = '(' :: (p.toList ++ [')']) :=
    trimLeft_eq_self (by simpa using (by decide : isBlank '(' = false))
  have hend : trimLeft [')'] = [')'] := by decide
  rw [toList_currentTimestampText]
  unfold currentTime?
  simp only [takeWhile_append_of_head hname hopening, dropWhile_append_of_head hname hopening, hfold,
    if_true, hgroup]
  simp only [digitArgument?, hinner, takeWhile_append_of_head h hclosing,
    dropWhile_append_of_head h hclosing, hend, if_true, hnonempty, Bool.false_eq_true, if_false,
    String.ofList_toList]

/-- **The current time denotes itself**, with its digits. -/
theorem ofText_currentTimestampText (d : Dialect) {precision : Option String}
    (h : IsPrecision precision) :
    DefaultValue.ofText d (currentTimestampText precision) = .currentTimestamp precision := by
  cases precision with
  | none => cases d <;> decide +kernel
  | some p =>
      obtain ⟨hne, hdigits⟩ := h p rfl
      have htight := tight_currentTimestampText hdigits
      have htrimmed := trimmed_currentTimestampText hdigits
      have hword : DefaultValue.words.lookup (asciiLower (currentTimestampText (some p))) = none := by
        have table : ∀ e ∈ DefaultValue.words, e.1.toList.length < 17 := by decide
        cases hl : DefaultValue.words.lookup (asciiLower (currentTimestampText (some p))) with
        | none => rfl
        | some v =>
            have := table _ (mem_of_lookup hl)
            rw [asciiLower, String.toList_ofList, List.length_map, toList_currentTimestampText,
              List.length_append] at this
            exact absurd this (by simp)
      have hnumber : isNumber (currentTimestampText (some p)).toList = false := by
        cases hn : isNumber (currentTimestampText (some p)).toList with
        | false => rfl
        | true =>
            have := toList_ne_of_isNumber hn 'C' (by rw [toList_currentTimestampText]; simp)
            exact absurd this (by decide)
      have hquote : (currentTimestampText (some p)).toList.dropWhile (!isQuote ·) = [] := by
        have hnone : ∀ c ∈ ([] : List Char).head?, (!isQuote c) = false := by simp
        have hall : ∀ c ∈ (currentTimestampText (some p)).toList, (!isQuote c) = true :=
          fun c hc => by simp [(htight c hc).2]
        have := dropWhile_append_of_head hall hnone
        rwa [List.append_nil] at this
      have hliteral : decodeLiteral (d = .mysql) (currentTimestampText (some p)) = none := by
        unfold decodeLiteral
        simp only [htrimmed, hquote]
      unfold DefaultValue.ofText
      simp only [htrimmed, String.ofList_toList, hword, hnumber, hliteral,
        currentTime?_currentTimestampText hne hdigits]
      rfl

end Schemata.Sql
