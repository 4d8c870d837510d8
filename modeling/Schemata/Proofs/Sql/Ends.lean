import Schemata.Proofs.Sql.Numeral

/-! # The texts of tokens

The text of a token neither begins nor ends with a blank (`Lexes.head`, `Lexes.last`), so nothing is
trimmed when the text of tokens is cut out of a source.  A word, a number or punctuation is spelled
as the token says (`Lexes.spelled`). -/

namespace Schemata.Text

/-! ### Blanks at the ends of texts -/

theorem trimLeft_eq_self {cs : List Char} (h : ∀ c ∈ cs.head?, isBlank c = false) :
    trimLeft cs = cs := by
  cases cs with
  | nil => rfl
  | cons c cs => rw [trimLeft, List.dropWhile_cons_of_neg (by simp [h c rfl])]

/-- Nothing is trimmed between characters that are not blank. -/
theorem trimmed_eq_self {cs : List Char} (hfirst : ∀ c ∈ cs.head?, isBlank c = false)
    (hlast : ∀ c ∈ cs.getLast?, isBlank c = false) : trimmed cs = cs := by
  have hreverse : trimLeft cs.reverse = cs.reverse :=
    trimLeft_eq_self (by rwa [List.head?_reverse])
  rw [trimmed, trimLeft_eq_self hfirst, trimRight]
  rw [trimLeft] at hreverse
  rw [hreverse, List.reverse_reverse]

/-! ### Characters of words -/

theorem alphabetic_apart_blank : apart alphabeticRanges blankRanges := by
  decide +kernel

theorem numeric_apart_blank : apart numericRanges blankRanges := by
  decide +kernel

theorem not_isBlank_of_inRanges {ranges : List (Nat × Nat)} {c : Char}
    (hapart : apart ranges blankRanges) (h : inRanges ranges c.toNat) (hc : ¬c.toNat < 0x80) :
    isBlank c = false := by
  cases hb : isBlank c with
  | false => rfl
  | true =>
      have := inRanges_of_isBlank hb hc
      rw [not_inRanges_of_apart hapart h] at this
      exact this.symm

end Schemata.Text

namespace Schemata.Sql

open Schemata.Text

variable {rules : Rules} {c : Char} {cs r : List Char}

theorem isBlank_of_isNameChar (h : isNameChar c) : isBlank c = false := by
  by_cases hc : c.toNat < 0x80
  · apply isBlank_of_isBareWordChar
    simp only [isNameChar, isAlphanumeric, isAlphabetic, isNumeric, if_pos hc] at h
    simpa [isBareWordChar, Char.isAlphanum] using h
  · simp only [isNameChar, isAlphanumeric, isAlphabetic, isNumeric, if_neg hc, Bool.or_eq_true,
      beq_iff_eq] at h
    rcases h with ((h | h) | rfl) | rfl
    · exact not_isBlank_of_inRanges alphabetic_apart_blank h hc
    · exact not_isBlank_of_inRanges numeric_apart_blank h hc
    · decide
    · decide

/-! ### Scanned texts -/

theorem isNumeralChar_of_mem_takeWhile (cs : List Char) :
    ∀ e ∈ cs.takeWhile Char.isDigit, isNumeralChar e := fun e he =>
  isNumeralChar_of_isDecimal (isDecimal_of_isDigit (List.all_eq_true.1 List.all_takeWhile e he))

theorem isNumeralChar_scanFraction (cs : List Char) : ∀ e ∈ (scanFraction cs).1, isNumeralChar e := by
  unfold scanFraction scanWhile
  split
  · split
    · rintro e (_ | ⟨_, he⟩)
      · decide
      · exact isNumeralChar_of_mem_takeWhile _ e he
    · simp
  · simp

theorem isNumeralChar_scanExponent (cs : List Char) : ∀ e ∈ (scanExponent cs).1, isNumeralChar e := by
  unfold scanExponent scanWhile
  split
  · simp
  · split
    · rename_i mark r hmark
      have hfirst : isNumeralChar mark := by
        rcases hmark with rfl | rfl <;> decide
      split
      · simp
      · split
        · rintro e (_ | ⟨_, he⟩)
          · exact hfirst
          · exact isNumeralChar_of_mem_takeWhile _ e he
        · split
          · rename_i sign t _ hsign
            rintro e (_ | ⟨_, _ | ⟨_, he⟩⟩)
            · exact hfirst
            · rcases hsign.1 with rfl | rfl <;> decide
            · exact isNumeralChar_of_mem_takeWhile _ e he
          · simp
    · simp

/-- A number is written with digits, points, signs and exponent letters. -/
theorem isNumeralChar_scanNumber (cs : List Char) : ∀ e ∈ (scanNumber cs).1, isNumeralChar e := by
  intro e he
  simp only [scanNumber, scanWhile, List.mem_append] at he
  rcases he with (he | he) | he
  · exact isNumeralChar_of_mem_takeWhile _ e he
  · exact isNumeralChar_scanFraction _ e he
  · exact isNumeralChar_scanExponent _ e he

/-- A word, a number or a symbol has no blanks. -/
theorem isBlank_of_mem_scanPlain (hc : isBlank c = false) :
    ∀ e ∈ (scanPlain c r).text, isBlank e = false := by
  unfold scanPlain
  split_ifs
  · exact fun e he => isBlank_of_isNumeralChar (isNumeralChar_scanNumber _ e he)
  · simpa using hc
  · intro e he
    exact isBlank_of_isNameChar (List.all_eq_true.1 List.all_takeWhile e he)
  · simpa using hc

/-- A quoted text ends with its quote. -/
theorem getLast?_text_scanQuoted {quote : Char} {unescape : Option (Char → Char)}
    {s : Scanned (List Char)} (h : scanQuoted quote unescape cs = some s) :
    s.text.getLast? = some quote := by
  have later : ∀ {w text : List Char}, text.getLast? = some quote →
      (w ++ text).getLast? = some quote := by
    intro w text hlast
    rw [List.getLast?_append, hlast, Option.some_or]
  fun_induction scanQuoted quote unescape cs generalizing s with
  | case1 => simp at h
  | case2 =>
      obtain rfl := Option.some.inj h
      rfl
  | case3 => simp at h
  | case5 =>
      obtain rfl := Option.some.inj h
      rfl
  | _ =>
      rename_i ih
      obtain ⟨t, ht, rfl⟩ := Option.map_eq_some_iff.1 h
      have := ih ht
      exact later this

/-- A dollar-quoted text ends with a dollar sign. -/
theorem getLast?_text_scanDollar {s : Scanned (List Char)} (h : scanDollar r = .ok (some s)) :
    s.text.getLast? = some '$' := by
  unfold scanDollar at h
  dsimp only at h
  split at h
  · simp at h
  · split at h
    · split at h
      · obtain rfl := Option.some.inj (Except.ok.inj h)
        dsimp only
        rw [← List.append_assoc, List.getLast?_concat]
      · simp at h
    · simp at h

/-! ### Lexemes -/

/-- How the text of a token is read before `rest`. -/
inductive ReadsAs (rest : List Char) : TokenKind → List Char → Prop
  | punctuation {c : Char} {kind : TokenKind} (h : punctuation.lookup c = some kind) :
      ReadsAs rest kind [c]
  | doubleColon : ReadsAs rest .doubleColon [':', ':']
  | quoted {opening value body : List Char} {quote : Char} {unescape : Option (Char → Char)}
      {kind : TokenKind} (hkind : kind = .stringLit (String.ofList value) ∨
        kind = .quotedIdent (String.ofList value) quote) (hquote : isBlank quote = false)
      (hread : scanQuoted quote unescape (body ++ rest) = some ⟨value, body, rest⟩) :
      ReadsAs rest kind (opening ++ body)
  | dollarQuoted {value t : List Char} (hread : scanDollar (t ++ rest) = .ok (some ⟨value, t, rest⟩)) :
      ReadsAs rest (.stringLit (String.ofList value)) ('$' :: t)
  | dollarSign : ReadsAs rest (.symbol '$') ['$']
  | plain {c : Char} {t : List Char} {kind : TokenKind} (hblank : isBlank c = false)
      (hread : scanPlain c (t ++ rest) = ⟨kind, c :: t, rest⟩) : ReadsAs rest kind (c :: t)

/-- **How tokens are read.** -/
theorem Lexes.readsAs {kind : TokenKind} {text rest : List Char} (h : Lexes rules kind text rest) :
    ReadsAs rest kind text := by
  obtain ⟨c, t, rfl, hblank, -, hscan⟩ := h
  have quoted : ∀ {opening : List Char} {fault pos quote unescape cs} {of : String → TokenKind},
      isBlank quote = false →
      (∀ v, of v = .stringLit v ∨ of v = .quotedIdent v quote) →
      quotedToken opening fault pos of (scanQuoted quote unescape cs) = .ok ⟨kind, c :: t, rest⟩ →
        ReadsAs rest kind (c :: t) := by
    intro opening fault pos quote unescape cs of hquote hof he
    obtain ⟨v, a, hread, rfl, htext⟩ := quotedToken_eq_ok.1 he
    obtain rfl : a ++ rest = cs := (reads_scanQuoted hread).2
    rw [← htext]
    exact .quoted (hof _) hquote hread
  have hscan := hscan 0
  unfold scanToken at hscan
  split at hscan
  · rename_i hpunct
    obtain ⟨rfl, rfl⟩ : _ = kind ∧ t = [] := by simpa using hscan
    exact .punctuation hpunct
  · split_ifs at hscan with hcolon hstring hdollar hident hescape
    · obtain ⟨rfl, rfl, -⟩ : .doubleColon = kind ∧ [':'] = t ∧ _ := by simpa using hscan
      rw [hcolon.1]
      exact .doubleColon
    · exact quoted (by decide) (fun _ => .inl rfl) hscan
    · rw [hdollar.1]
      split at hscan
      · rename_i s hd
        obtain ⟨value, text, rest'⟩ := s
        obtain ⟨rfl, rfl, rfl⟩ : .stringLit (String.ofList value) = kind ∧ text = t ∧ rest' = rest := by
          simpa [Scanned.map, Scanned.after] using hscan
        exact .dollarQuoted hd
      · obtain ⟨rfl, rfl⟩ : .symbol c = kind ∧ t = [] := by simpa using hscan
        rw [hdollar.1]
        exact .dollarSign
      · simp at hscan
    · exact quoted hblank (fun _ => .inr rfl) hscan
    · exact quoted (by decide) (fun _ => .inl rfl) hscan
    · exact .plain hblank (Except.ok.inj hscan)

/-- A token does not begin with a blank. -/
theorem Lexes.head {kind : TokenKind} {text rest : List Char} (h : Lexes rules kind text rest) :
    text ≠ [] ∧ ∀ c ∈ text.head?, isBlank c = false := by
  obtain ⟨c, t, rfl, hblank, -⟩ := h
  exact ⟨by simp, by simpa using hblank⟩

/-- A token does not end with a blank. -/
theorem Lexes.last {kind : TokenKind} {text rest : List Char} (h : Lexes rules kind text rest) :
    ∀ c ∈ text.getLast?, isBlank c = false := by
  cases h.readsAs with
  | punctuation => exact h.head.2
  | doubleColon => decide
  | quoted _ hquote hread =>
      rw [List.getLast?_append, getLast?_text_scanQuoted hread, Option.some_or]
      simpa using hquote
  | dollarQuoted hread =>
      rw [List.getLast?_cons, getLast?_text_scanDollar hread]
      decide
  | dollarSign => decide
  | @plain c t _ hblank hread =>
      have hmem := isBlank_of_mem_scanPlain (r := t ++ rest) hblank
      rw [hread] at hmem
      exact fun e he => hmem e (List.mem_of_getLast? he)

/-! ### Spelling -/

/-- The text of a token that stands for itself: a word, a number, or punctuation. -/
def TokenKind.spelling? : TokenKind → Option (List Char)
  | word text => some text.toList
  | number text => some text.toList
  | quotedIdent _ _ => none
  | stringLit _ => none
  | lparen => some ['(']
  | rparen => some [')']
  | lbracket => some ['[']
  | rbracket => some [']']
  | comma => some [',']
  | semicolon => some [';']
  | dot => some ['.']
  | equals => some ['=']
  | doubleColon => some [':', ':']
  | symbol c => some [c]

/-- A word, a number or a symbol is kept as it is spelled. -/
theorem spelling?_scanPlain (c : Char) (r : List Char) :
    (scanPlain c r).value.spelling? = some (scanPlain c r).text := by
  unfold scanPlain
  split_ifs with hnumber hdot
  · simp [plainToken, TokenKind.spelling?]
  · rw [hdot]
    rfl
  · simp [plainToken, TokenKind.spelling?]
  · rfl

/-- **A token that stands for itself** is spelled so. -/
theorem Lexes.spelled {kind : TokenKind} {text rest w : List Char} (h : Lexes rules kind text rest)
    (hw : kind.spelling? = some w) : text = w := by
  cases h.readsAs with
  | @punctuation c _ hkind =>
      have table : ∀ e ∈ punctuation, e.2.spelling? = some [e.1] := by decide
      rw [table (c, kind) (mem_of_lookup hkind)] at hw
      exact Option.some.inj hw
  | doubleColon => exact Option.some.inj hw
  | quoted hkind => rcases hkind with rfl | rfl <;> simp [TokenKind.spelling?] at hw
  | dollarQuoted => simp [TokenKind.spelling?] at hw
  | dollarSign => exact Option.some.inj hw
  | @plain c t _ _ hread =>
      have hspelling := spelling?_scanPlain c (t ++ rest)
      rw [hread, hw] at hspelling
      exact (Option.some.inj hspelling).symm

end Schemata.Sql
