import Schemata.Proofs.Sql.Reading
import Schemata.Sql.Default

/-! # Numbers are read by both dialects

A text that is written with decimal digits of any script, signs, points and exponent letters, and
that does not start a comment, can be read by itself in both dialects (`wholeKinds?_numeral`).  Among
these texts are the numbers that defaults are given by: a sign perhaps, a token that can be the
operand of a default, and some tokens that mean nothing after it (`wholeKinds?_number`). -/

namespace Schemata.Text

/-- No range of one list meets one of the other. -/
def apart (as bs : List (Nat × Nat)) : Bool :=
  as.all fun a => bs.all fun b => a.2.blt b.1 || b.2.blt a.1

theorem not_inRanges_of_apart {as bs : List (Nat × Nat)} (h : apart as bs) {n : Nat}
    (hn : inRanges as n) : inRanges bs n = false := by
  obtain ⟨a, ha, hn⟩ := List.any_eq_true.1 hn
  obtain ⟨hlow, hhigh⟩ : a.1 ≤ n ∧ n ≤ a.2 := by simpa using hn
  rw [inRanges, List.any_eq_false]
  intro b hb
  have := List.all_eq_true.1 (List.all_eq_true.1 h a ha) b hb
  simp only [Bool.or_eq_true, Nat.blt_eq] at this
  simp only [Bool.and_eq_true, decide_eq_true_eq]
  omega

/-- The blank code points from U+0080 on. -/
def blankRanges : List (Nat × Nat) :=
  [(0x85, 0x85), (0xA0, 0xA0), (0x1680, 0x1680), (0x2000, 0x200A), (0x2028, 0x2029),
    (0x202F, 0x202F), (0x205F, 0x205F), (0x3000, 0x3000)]

theorem inRanges_of_isBlank {c : Char} (h : isBlank c) (hc : ¬c.toNat < 0x80) :
    inRanges blankRanges c.toNat := by
  simp only [isBlank, Bool.or_eq_true, Bool.and_eq_true, decide_eq_true_eq, beq_iff_eq] at h
  simp only [inRanges, blankRanges, List.any_cons, List.any_nil, Bool.or_false, Bool.or_eq_true,
    Bool.and_eq_true, decide_eq_true_eq]
  omega

theorem decimal_apart_blank : apart decimalRanges blankRanges := by
  decide +kernel

theorem decimal_apart_alphabetic : apart decimalRanges alphabeticRanges := by
  decide +kernel

theorem isDecimal_of_isDigit {ch : Char} (h : ch.isDigit) : isDecimal ch := by
  have hlt : ch.toNat < 0x80 := by
    have := (Char.isDigit_iff_toNat.1 h).2
    have h9 : '9'.toNat = 57 := rfl
    omega
  rw [isDecimal, if_pos hlt]
  exact h

theorem isBlank_of_isDecimal {c : Char} (h : isDecimal c) : isBlank c = false := by
  rw [isDecimal] at h
  by_cases hc : c.toNat < 0x80
  · rw [if_pos hc] at h
    exact Sql.isBlank_of_isBareWordChar (by simp [Sql.isBareWordChar, Char.isAlphanum, h])
  · rw [if_neg hc] at h
    by_contra hb
    have := inRanges_of_isBlank (by simpa using hb) hc
    rw [not_inRanges_of_apart decimal_apart_blank h] at this
    simp at this

/-- A decimal digit that is no ASCII digit starts nothing but a symbol. -/
theorem startsName_of_isDecimal {c : Char} (h : isDecimal c) : Sql.startsName c = false := by
  rw [isDecimal] at h
  by_cases hc : c.toNat < 0x80
  · rw [if_pos hc] at h
    cases hs : Sql.startsName c with
    | false => rfl
    | true =>
        have hword : Sql.startsBareWord c := by
          simpa [Sql.startsName, Sql.startsBareWord, isAlphabetic, hc] using hs
        simp [Sql.isDigit_of_startsBareWord hword] at h
  · rw [if_neg hc] at h
    have hne : c ≠ '_' := by
      rintro rfl
      exact hc (by decide)
    simp [Sql.startsName, isAlphabetic, hc, hne,
      not_inRanges_of_apart decimal_apart_alphabetic h]

end Schemata.Text

namespace Schemata.Sql

open Schemata.Text

variable {d : Dialect} {pos : Nat}

/-! ### Characters of numbers -/

/-- A character that numbers are written with. -/
def isNumeralChar (c : Char) : Bool :=
  isDecimal c || c == '+' || c == '-' || c == '.' || c == 'e' || c == 'E'

/-- No line comment is started by two minus signs. -/
def singleMinus : List Char → Bool
  | [] => true
  | c :: r => !(c == '-' && r.head? == some '-') && singleMinus r

/-- The token of a character that numbers are written with, and of those after it.  Words are made
of such characters as well. -/
def isNumeralKind : TokenKind → Bool
  | .number _ | .dot | .symbol _ => true
  | .word text => text.toList.all isNumeralChar
  | _ => false

theorem isBlank_of_isNumeralChar {c : Char} (h : isNumeralChar c) : isBlank c = false := by
  simp only [isNumeralChar, Bool.or_eq_true, beq_iff_eq] at h
  rcases h with ((((h | rfl) | rfl) | rfl) | rfl) | rfl
  · exact isBlank_of_isDecimal h
  all_goals decide

theorem isNumeralChar_toLower {c : Char} (h : isNumeralChar c) : isNumeralChar c.toLower := by
  cases hu : c.isUpper with
  | false => rwa [toLower_of_not_isUpper hu]
  | true =>
      have hrange : 65 ≤ c.toNat ∧ c.toNat ≤ 90 := isUpper_iff_toNat.1 hu
      simp only [isNumeralChar, Bool.or_eq_true, beq_iff_eq] at h
      rcases h with ((((h | rfl) | rfl) | rfl) | rfl) | rfl
      · have hlt : c.toNat < 0x80 := by omega
        rw [isDecimal, if_pos hlt] at h
        have hdigit : c.toNat ≤ 57 := (Char.isDigit_iff_toNat.1 h).2
        omega
      all_goals revert hu; decide

/-- A numeral in lower case is a numeral. -/
theorem numeral_asciiLower {text : String} (h : ∀ c ∈ text.toList, isNumeralChar c) :
    (asciiLower text).toList.all isNumeralChar := by
  rw [asciiLower, String.toList_ofList, List.all_eq_true]
  intro c hc
  obtain ⟨e, he, rfl⟩ := List.mem_map.1 hc
  exact isNumeralChar_toLower (h e he)

theorem scanToken_numeral (d : Dialect) {c : Char} {r : List Char}
    (h : ∀ e ∈ c :: r, isNumeralChar e) :
    scanToken (rulesOf d) pos c r = .ok (scanPlain c r) := by
  have marks : ∀ e ∈ markChars, isNumeralChar e = false := by decide
  refine scanToken_plain d (fun hc => ?_) (fun hr => ?_)
  · have := marks c hc
    simp [h c (by simp)] at this
  · have := h '\'' (by simp [List.mem_of_mem_head? hr])
    revert this
    decide

theorem scanComment_numeral {rules : Rules} {c : Char} {r : List Char}
    (h : ∀ e ∈ c :: r, isNumeralChar e) (hm : singleMinus (c :: r)) :
    scanComment rules (c :: r) = .ok none := by
  have hhash : c ≠ '#' := ne_of_test (h c (by simp)) (by decide)
  have hslash : c ≠ '/' := ne_of_test (h c (by simp)) (by decide)
  have hminus : ¬(c = '-' ∧ r.head? = some '-') := by
    simp only [singleMinus, Bool.and_eq_true, Bool.not_eq_true', Bool.and_eq_false_iff,
      beq_eq_false_iff_ne] at hm
    tauto
  rw [scanComment_eq_none, startsLineComment_eq]
  cases r with
  | nil => simp [leads, hhash]
  | cons e r => 
      have : c = '-' → ¬e = '-' := fun hc he => hminus ⟨hc, by rw [he]; rfl⟩
      simpa [leads, hhash, hslash] using this

theorem isNumeralKind_scanPlain {c : Char} {r : List Char} (h : ∀ e ∈ c :: r, isNumeralChar e) :
    isNumeralKind (scanPlain c r).value := by
  unfold scanPlain
  split_ifs
  · rfl
  · rfl
  · simp only [plainToken, scanWhile, isNumeralKind, String.toList_ofList, List.all_eq_true]
    intro e he
    exact h e ((List.takeWhile_sublist _).subset he)
  · rfl

theorem singleMinus_of_append {a b : List Char} (h : singleMinus (a ++ b)) : singleMinus b := by
  induction a with
  | nil => exact h
  | cons c a ih =>
      rw [List.cons_append, singleMinus, Bool.and_eq_true] at h
      exact ih h.2

/-- The tokens of a numeral, one at a time. -/
theorem tokensFrom_numeral_cons (d : Dialect) {c : Char} {r : List Char}
    (h : ∀ e ∈ c :: r, isNumeralChar e) (hm : singleMinus (c :: r)) :
    tokensFrom (rulesOf d) pos (c :: r) =
      (tokensFrom (rulesOf d) (pos + byteLength (scanPlain c r).text) (scanPlain c r).rest).map
        (⟨(scanPlain c r).value, ⟨pos, pos + byteLength (scanPlain c r).text⟩⟩ :: ·) := by
  rw [tokensFrom_eq, skipGap_none (isBlank_of_isNumeralChar (h c (by simp)))
    (scanComment_numeral h hm)]
  simp only [Except.bind, scanToken_numeral d h]

/-- What follows a token of a numeral is a numeral. -/
theorem numeral_rest {c : Char} {r : List Char} (h : ∀ e ∈ c :: r, isNumeralChar e)
    (hm : singleMinus (c :: r)) :
    (∀ e ∈ (scanPlain c r).rest, isNumeralChar e) ∧ singleMinus (scanPlain c r).rest := by
  have happ := (reads_scanPlain c r).2
  rw [← happ] at h hm
  exact ⟨fun e he => h e (List.mem_append_right _ he), singleMinus_of_append hm⟩

/-- Numerals are read to their end. -/
theorem tokensFrom_numeral (d : Dialect) (pos : Nat) {cs : List Char} (h : ∀ c ∈ cs, isNumeralChar c)
    (hm : singleMinus cs) :
    ∃ tokens, tokensFrom (rulesOf d) pos cs = .ok tokens ∧
      (∀ t ∈ tokens, isNumeralKind t.kind) ∧
      (tokens.getLast?.map (·.span.stop)).getD pos = pos + byteLength cs := by
  induction hn : cs.length using Nat.strongRecOn generalizing cs pos with
  | ind n ih =>
  subst hn
  cases cs with
  | nil => exact ⟨[], tokensFrom_nil, by simp, rfl⟩
  | cons c r =>
      have happ := (reads_scanPlain c r).2
      obtain ⟨hrest, hminus⟩ := numeral_rest h hm
      obtain ⟨tokens, htokens, hkinds, hlast⟩ :=
        ih _ (reads_scanPlain c r).length_rest_lt (pos + byteLength (scanPlain c r).text)
          hrest hminus rfl
      refine ⟨⟨(scanPlain c r).value, ⟨pos, pos + byteLength (scanPlain c r).text⟩⟩ :: tokens,
        ?_, ?_, ?_⟩
      · rw [tokensFrom_numeral_cons d h hm, htokens]
        rfl
      · intro t ht
        rcases List.mem_cons.1 ht with rfl | ht
        · exact isNumeralKind_scanPlain h
        · exact hkinds t ht
      · have hlen : byteLength (c :: r) =
            byteLength (scanPlain c r).text + byteLength (scanPlain c r).rest := by
          rw [← byteLength_append, happ]
        rw [hlen, List.getLast?_cons]
        cases ht : tokens.getLast? with
        | none =>
            simp only [ht, Option.map_none, Option.getD_none] at hlast
            simp only [Option.getD_none, Option.map_some, Option.getD_some]
            omega
        | some last =>
            simp only [ht, Option.map_some, Option.getD_some] at hlast
            simp only [Option.getD_some, Option.map_some]
            omega

/-- **Numerals can be read by themselves.** -/
theorem wholeKinds?_numeral (d : Dialect) {cs : List Char} (h : ∀ c ∈ cs, isNumeralChar c)
    (hm : singleMinus cs) :
    ∃ kinds, wholeKinds? (rulesOf d) cs = some kinds ∧ ∀ k ∈ kinds, isNumeralKind k := by
  obtain ⟨tokens, htokens, hkinds, hlast⟩ := tokensFrom_numeral d 0 h hm
  refine ⟨tokens.map Token.kind, ?_, ?_⟩
  · rw [Nat.zero_add] at hlast
    rw [wholeKinds?, tokenize, htokens]
    simp only [hlast, if_true]
  · intro k hk
    obtain ⟨t, ht, rfl⟩ := List.mem_map.1 hk
    exact hkinds t ht

/-- A text of decimal digits can be read by itself. -/
theorem wholeKinds?_digits (d : Dialect) {cs : List Char} (h : ∀ c ∈ cs, isDecimal c) :
    ∃ kinds, wholeKinds? (rulesOf d) cs = some kinds ∧ ∀ k ∈ kinds, isNumeralKind k := by
  refine wholeKinds?_numeral d (fun c hc => by simp [isNumeralChar, h c hc]) ?_
  induction cs with
  | nil => rfl
  | cons c cs ih =>
      have hc : c ≠ '-' := ne_of_test (h c (by simp)) (by decide)
      rw [singleMinus, ih fun e he => h e (by simp [he])]
      simp [hc]

/-! ### Numbers of defaults -/

/-- A token that can be the operand of a default that is a number. -/
def isOperandKind : TokenKind → Bool
  | .number _ | .dot => true
  | .symbol c => c != '+' && c != '-'
  | _ => false

theorem isOperandKind_scanPlain {c : Char} (r : List Char) (h : isDecimal c ∨ c = '.') :
    isOperandKind (scanPlain c r).value := by
  unfold scanPlain
  split_ifs with hnum hpoint hname
  · rfl
  · rfl
  · rcases h with h | h
    · simp [startsName_of_isDecimal h] at hname
    · exact absurd h hpoint
  · rcases h with h | h
    · have hplus : c ≠ '+' := ne_of_test h (by decide)
      have hminus : c ≠ '-' := ne_of_test h (by decide)
      simp [isOperandKind, hplus, hminus]
    · exact absurd h hpoint

theorem isNumeralChar_of_isDecimal {c : Char} (h : isDecimal c) : isNumeralChar c := by
  simp [isNumeralChar, h]

theorem singleMinus_append {a b : List Char} (ha : '-' ∉ a) (hb : singleMinus b) :
    singleMinus (a ++ b) := by
  induction a with
  | nil => exact hb
  | cons c a ih =>
      simp only [List.mem_cons, not_or] at ha
      rw [List.cons_append, singleMinus, ih ha.2]
      simp [Ne.symm ha.1]

theorem minus_notMem_of_isDecimal {cs : List Char} (h : ∀ c ∈ cs, isDecimal c) : '-' ∉ cs := by
  intro hmem
  have := h '-' hmem
  revert this
  decide

theorem isDecimal_of_mem_takeWhile (cs : List Char) : ∀ c ∈ cs.takeWhile isDecimal, isDecimal c :=
  fun c hc => List.all_eq_true.1 List.all_takeWhile c hc

/-- A text of the characters of numbers in which no two minus signs start a comment. -/
def IsNumeral (cs : List Char) : Prop := (∀ c ∈ cs, isNumeralChar c) ∧ singleMinus cs

theorem isNumeral_nil : IsNumeral [] := ⟨by simp, rfl⟩

theorem IsNumeral.cons {c : Char} {r : List Char} (h : IsNumeral r) (hc : isNumeralChar c)
    (hplain : c ≠ '-' ∨ r.head? ≠ some '-') : IsNumeral (c :: r) := by
  refine ⟨List.forall_mem_cons.2 ⟨hc, h.1⟩, ?_⟩
  rw [singleMinus, h.2]
  rcases hplain with hplain | hplain <;> simp [hplain]

theorem IsNumeral.append {a b : List Char} (hb : IsNumeral b) (ha : ∀ c ∈ a, isDecimal c) :
    IsNumeral (a ++ b) := by
  refine ⟨fun c hc => ?_, singleMinus_append (minus_notMem_of_isDecimal ha) hb.2⟩
  rcases List.mem_append.1 hc with hc | hc
  · exact isNumeralChar_of_isDecimal (ha c hc)
  · exact hb.1 c hc

/-- A sign can stand before a numeral without one. -/
theorem IsNumeral.of_afterSign {cs r : List Char} {c : Char} (hafter : afterSign cs = c :: r)
    (hc : c ≠ '-') (h : IsNumeral (c :: r)) :
    IsNumeral cs ∧ ∃ sign, cs = sign ++ c :: r ∧ sign ∈ [[], ['+'], ['-']] := by
  cases cs with
  | nil => simp [afterSign] at hafter
  | cons e t =>
      rw [afterSign] at hafter
      split at hafter
      · rename_i hsign
        subst hafter
        refine ⟨h.cons ?_ (.inr (by simpa using hc)), [e], rfl, by simpa using hsign⟩
        rcases hsign with rfl | rfl <;> decide
      · rw [hafter]
        exact ⟨h, [], rfl, by simp⟩

/-- Signed digits are written like numbers. -/
theorem numeral_of_isDigits_afterSign {cs : List Char} (h : isDigits (afterSign cs)) :
    IsNumeral cs := by
  obtain ⟨hne, hall⟩ : afterSign cs ≠ [] ∧ ∀ c ∈ afterSign cs, isDecimal c := by
    simpa [isDigits] using h
  obtain ⟨c, r, hafter⟩ := List.exists_cons_of_ne_nil hne
  rw [hafter] at hall
  have hnumeral := isNumeral_nil.append hall
  rw [List.append_nil] at hnumeral
  exact (IsNumeral.of_afterSign hafter (ne_of_test (hall c (by simp)) (by decide)) hnumeral).1

theorem numeral_of_isExponent {cs : List Char} (h : isExponent cs) : IsNumeral cs := by
  cases cs with
  | nil => exact isNumeral_nil
  | cons c r =>
      simp only [isExponent, Bool.and_eq_true, Bool.or_eq_true, decide_eq_true_eq] at h
      have hc : isNumeralChar c ∧ c ≠ '-' := by
        rcases h.1 with rfl | rfl <;> decide
      exact (numeral_of_isDigits_afterSign h.2).cons hc.1 (.inl hc.2)

/-- After its sign, a number is a numeral that starts with a digit or a point. -/
theorem numeral_afterSign {cs : List Char} (h : isNumber cs) :
    IsNumeral (afterSign cs) ∧ ∃ c r, afterSign cs = c :: r ∧ (isDecimal c ∨ c = '.') := by
  obtain ⟨whole, rest, hwhole, hrest, hsplit⟩ : ∃ whole rest,
      (afterSign cs).takeWhile isDecimal = whole ∧ (afterSign cs).dropWhile isDecimal = rest ∧
        afterSign cs = whole ++ rest :=
    ⟨_, _, rfl, rfl, List.takeWhile_append_dropWhile.symm⟩
  have hdecimal : ∀ c ∈ whole, isDecimal c := hwhole ▸ isDecimal_of_mem_takeWhile _
  have first : whole ≠ [] → ∃ c r, afterSign cs = c :: r ∧ (isDecimal c ∨ c = '.') := by
    intro hne
    obtain ⟨c, r, rfl⟩ := List.exists_cons_of_ne_nil hne
    exact ⟨c, r ++ rest, hsplit, .inl (hdecimal c (by simp))⟩
  simp only [isNumber, hwhole, hrest] at h
  split at h
  · rename_i r
    rw [Bool.and_eq_true] at h
    have hfraction := (numeral_of_isExponent h.2).append (isDecimal_of_mem_takeWhile r)
    rw [List.takeWhile_append_dropWhile] at hfraction
    have hpoint : IsNumeral ('.' :: r) := hfraction.cons (by decide) (.inl (by decide))
    refine ⟨hsplit ▸ hpoint.append hdecimal, ?_⟩
    by_cases hne : whole = []
    · exact ⟨'.', r, by rw [hsplit, hne, List.nil_append], .inr rfl⟩
    · exact first hne
  · simp only [Bool.and_eq_true, Bool.not_eq_true', List.isEmpty_eq_false_iff] at h
    exact ⟨hsplit ▸ (numeral_of_isExponent h.2).append hdecimal, first h.1⟩

/-- A number is a sign perhaps and a numeral that starts with a digit or a point. -/
theorem numeral_of_isNumber {cs : List Char} (h : isNumber cs) :
    IsNumeral cs ∧
      ∃ sign c r, cs = sign ++ c :: r ∧ sign ∈ [[], ['+'], ['-']] ∧ (isDecimal c ∨ c = '.') := by
  obtain ⟨hnumeral, c, r, hafter, hc⟩ := numeral_afterSign h
  have hminus : c ≠ '-' := by
    rcases hc with hc | rfl
    · exact ne_of_test hc (by decide)
    · decide
  rw [hafter] at hnumeral
  obtain ⟨hall, sign, hcs, hsign⟩ := IsNumeral.of_afterSign hafter hminus hnumeral
  exact ⟨hall, sign, c, r, hcs, hsign, hc⟩

/-- The first token of a numeral. -/
theorem tokensFrom_numeral_ok {c : Char} {r : List Char} {tokens : List Token}
    (h : ∀ e ∈ c :: r, isNumeralChar e) (hm : singleMinus (c :: r))
    (ht : tokensFrom (rulesOf d) pos (c :: r) = .ok tokens) :
    ∃ t ts p, tokens = t :: ts ∧ t.kind = (scanPlain c r).value ∧
      tokensFrom (rulesOf d) p (scanPlain c r).rest = .ok ts := by
  rw [tokensFrom_numeral_cons d h hm] at ht
  obtain ⟨ts, hts, rfl⟩ := exists_of_map_eq_ok ht
  exact ⟨_, ts, _, rfl, rfl, hts⟩

theorem scanPlain_sign {s : Char} (hs : s ∈ ['+', '-']) (r : List Char) :
    scanPlain s r = ⟨.symbol s, [s], r⟩ := by
  have table : ∀ s ∈ ['+', '-'], s.isDigit = false ∧ s ≠ '.' ∧ startsName s = false := by
    decide
  simp [scanPlain, table s hs]

theorem map_symbol_of_sign {sign : List Char} (h : sign ∈ [[], ['+'], ['-']]) :
    sign.map TokenKind.symbol ∈ [[], [.symbol '+'], [.symbol '-']] :=
  List.mem_map_of_mem (f := List.map TokenKind.symbol) h

/-- The tokens of a number are its sign, if it has one, and those of a numeral. -/
theorem tokensFrom_number_ok {sign r : List Char} {c : Char} {tokens : List Token}
    (hsign : sign ∈ [[], ['+'], ['-']]) (hall : ∀ e ∈ sign ++ c :: r, isNumeralChar e)
    (hm : singleMinus (sign ++ c :: r))
    (ht : tokensFrom (rulesOf d) pos (sign ++ c :: r) = .ok tokens) :
    ∃ signs t ts p, tokens = signs ++ t :: ts ∧ signs.map Token.kind = sign.map TokenKind.symbol ∧
      t.kind = (scanPlain c r).value ∧ tokensFrom (rulesOf d) p (scanPlain c r).rest = .ok ts := by
  have signed : ∀ s ∈ ['+', '-'], sign = [s] → ∃ signs t ts p, tokens = signs ++ t :: ts ∧
      signs.map Token.kind = sign.map TokenKind.symbol ∧ t.kind = (scanPlain c r).value ∧
      tokensFrom (rulesOf d) p (scanPlain c r).rest = .ok ts := by
    rintro s hs rfl
    rw [List.singleton_append] at hall hm ht
    obtain ⟨first, others, p, rfl, hfirst, hothers⟩ := tokensFrom_numeral_ok hall hm ht
    rw [scanPlain_sign hs] at hfirst hothers
    have hm' := singleMinus_of_append (a := [s]) hm
    obtain ⟨t, ts, q, rfl, hkind, hts⟩ :=
      tokensFrom_numeral_ok (fun e he => hall e (List.mem_cons_of_mem _ he)) hm' hothers
    exact ⟨[first], t, ts, q, rfl, by simp [hfirst], hkind, hts⟩
  simp only [List.mem_cons, List.not_mem_nil, or_false] at hsign
  rcases hsign with rfl | rfl | rfl
  · obtain ⟨t, ts, p, rfl, hkind, hts⟩ := tokensFrom_numeral_ok hall hm ht
    exact ⟨[], t, ts, p, rfl, rfl, hkind, hts⟩
  · exact signed '+' (by simp) rfl
  · exact signed '-' (by simp) rfl

/-- **Numbers of defaults can be read by themselves.** -/
theorem wholeKinds?_number (d : Dialect) {cs : List Char} (h : isNumber cs) :
    ∃ sign k ks, wholeKinds? (rulesOf d) cs = some (sign ++ k :: ks) ∧
      sign ∈ [[], [.symbol '+'], [.symbol '-']] ∧ isOperandKind k ∧ ∀ j ∈ ks, isNumeralKind j := by
  obtain ⟨⟨hall, hm⟩, sign, c, r, rfl, hsign, hc⟩ := numeral_of_isNumber h
  obtain ⟨kinds, hkinds, hnumeral⟩ := wholeKinds?_numeral d hall hm
  obtain ⟨tokens, htokens, rfl⟩ : ∃ tokens, tokensFrom (rulesOf d) 0 (sign ++ c :: r) = .ok tokens ∧
      tokens.map Token.kind = kinds := by
    unfold wholeKinds? at hkinds
    split at hkinds
    · rename_i tokens ht
      exact ⟨tokens, ht, by simpa using (Option.ite_none_right_eq_some.1 hkinds).2⟩
    · simp at hkinds
  obtain ⟨signs, t, ts, -, rfl, hsigns, hkind, -⟩ := tokensFrom_number_ok hsign hall hm htokens
  refine ⟨sign.map TokenKind.symbol, t.kind, ts.map Token.kind, ?_, map_symbol_of_sign hsign,
    hkind ▸ isOperandKind_scanPlain r hc, fun j hj => hnumeral j (by simp [hj])⟩
  rw [hkinds, List.map_append, List.map_cons, hsigns]

end Schemata.Sql
