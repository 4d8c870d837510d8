import Schemata.Naming
import Schemata.Proofs.Sql.Numeral

/-! # Letters and numerals in lower case

Letters stay letters in lower case (`exists_lowerChar`), and numerals that are no letters are left as they are
(`lowerChar_of_isNumeral`).  One letter becomes two characters, the second of which is a combining mark. -/

namespace Schemata.Text

variable {c : Char} {n low high : Nat}

/-! ### Tables -/

/-- Whether one of the ranges has all code points from `low` to `high`. -/
def hasRange (ranges : List (Nat × Nat)) (low high : Nat) : Bool :=
  ranges.any fun r => r.1.ble low && high.ble r.2

theorem inRanges_of_hasRange {ranges : List (Nat × Nat)} (h : hasRange ranges low high) (hlow : low ≤ n)
    (hhigh : n ≤ high) : inRanges ranges n := by
  obtain ⟨r, hr, hends⟩ := List.any_eq_true.1 h
  simp only [Bool.and_eq_true, Nat.ble_eq] at hends
  exact List.any_eq_true.2 ⟨r, hr, by simp; omega⟩

/-- The code point that a run maps a code point to. -/
def CaseRun.image (run : CaseRun) (n : Nat) : Nat := (Int.ofNat n + run.shift).toNat

/-- A code point is left as it is unless a run has it. -/
theorem shifted_cases (runs : List CaseRun) (n : Nat) :
    shifted runs n = n ∨ ∃ run ∈ runs, run.first ≤ n ∧ n ≤ run.last ∧ shifted runs n = run.image n := by
  unfold shifted
  cases hfind : runs.find? (·.contains n) with
  | none => exact .inl rfl
  | some run =>
      have hcontains := List.find?_some hfind
      simp only [CodeRun.contains, Bool.and_eq_true, decide_eq_true_eq] at hcontains
      exact .inr ⟨run, List.mem_of_find?_eq_some hfind, hcontains.1.1, hcontains.1.2, rfl⟩

/-- Code points of characters beyond ASCII. -/
def beyondAscii (low high : Nat) : Bool :=
  Nat.ble 0x80 low && (Nat.blt high 0xD800 || Nat.blt 0xDFFF low && Nat.blt high 0x110000)

/-- A run of letters, or of no numeral, with letters for images. -/
def keepsLetters (run : CaseRun) : Bool :=
  (hasRange alphabeticRanges run.first run.last || apart numericRanges [(run.first, run.last)]) &&
    (beyondAscii (run.image run.first) (run.image run.last) &&
        hasRange alphabeticRanges (run.image run.first) (run.image run.last) ||
      run.first == run.last && isAlphabetic (Char.ofNat (run.image run.first)))

/-- The lower-case map keeps letters.  It is all that is asked of the tables, and one decision. -/
theorem toLowerRuns_keepLetters : toLowerRuns.all keepsLetters := by
  decide +kernel

theorem lowered_letters {run : CaseRun} (h : run ∈ toLowerRuns) :
    hasRange alphabeticRanges run.first run.last ∨ apart numericRanges [(run.first, run.last)] := by
  have hrun := List.all_eq_true.1 toLowerRuns_keepLetters run h
  rw [keepsLetters, Bool.and_eq_true, Bool.or_eq_true] at hrun
  exact hrun.1

theorem letters_lowered {run : CaseRun} (h : run ∈ toLowerRuns) :
    beyondAscii (run.image run.first) (run.image run.last) ∧
        hasRange alphabeticRanges (run.image run.first) (run.image run.last) ∨
      run.first = run.last ∧ isAlphabetic (Char.ofNat (run.image run.first)) := by
  have hrun := List.all_eq_true.1 toLowerRuns_keepLetters run h
  rw [keepsLetters, Bool.and_eq_true] at hrun
  simpa using hrun.2

theorem image_mono {run : CaseRun} {m : Nat} (h : n ≤ m) : run.image n ≤ run.image m := by
  unfold CaseRun.image
  have : (Int.ofNat n : Int) ≤ Int.ofNat m := Int.ofNat_le.2 h
  omega

/-- A letter of the table is a letter. -/
theorem isAlphabetic_ofNat (hbeyond : beyondAscii low high) (h : hasRange alphabeticRanges low high)
    (hlow : low ≤ n) (hhigh : n ≤ high) : isAlphabetic (Char.ofNat n) := by
  simp only [beyondAscii, Bool.and_eq_true, Bool.or_eq_true, Nat.ble_eq, Nat.blt_eq] at hbeyond
  have hchar : n.isValidChar := by
    unfold Nat.isValidChar
    omega
  have hn : (Char.ofNat n).toNat = n := by
    rw [Char.ofNat, dif_pos hchar]
    rfl
  have hascii : ¬n < 0x80 := by omega
  rw [isAlphabetic, hn, if_neg hascii, inRanges_of_hasRange h hlow hhigh]

/-! ### ASCII -/

theorem lowerChar_of_ascii (h : c.toNat < 0x80) : lowerChar c = [c.toLower] := if_pos h

/-- Letters of ASCII stay letters in lower case. -/
theorem isAlphabetic_toLower (hascii : c.toNat < 0x80) (h : isAlphabetic c) : isAlphabetic c.toLower := by
  by_cases hupper : c.isUpper
  · have hlower := toNat_toLower hupper
    have hbounds := isUpper_iff_toNat.1 hupper
    have hlt : c.toLower.toNat < 0x80 := by omega
    rw [isAlphabetic, if_pos hlt, isAlpha_iff]
    exact .inr (isLower_iff_toNat.2 (by omega))
  · rwa [toLower_of_not_isUpper (by simpa using hupper)]

/-! ### Beyond ASCII -/

theorem isAlphabetic_dotted : isAlphabetic 'İ' := by
  decide

/-- One letter has a lower-case form of two characters. -/
theorem lowerChar_dotted : lowerChar 'İ' = ['i', '\u0307'] := by
  decide

theorem lowerChar_of_ne (hascii : ¬c.toNat < 0x80) (hc : c ≠ 'İ') :
    lowerChar c = [Char.ofNat (shifted toLowerRuns c.toNat)] := by
  have hne : c.toNat ≠ 0x130 := fun he => hc (Char.toNat_inj.1 he)
  rw [lowerChar, if_neg hascii, caseMap, toLowerExpansions, List.lookup_cons, beq_false_of_ne hne]
  rfl

/-! ### Letters and numerals -/

/-- **Numerals that are no letters** are left as they are. -/
theorem lowerChar_of_isNumeral (h : isNumeric c) (hletter : isAlphabetic c = false) : lowerChar c = [c] := by
  by_cases hascii : c.toNat < 0x80
  · rw [isAlphabetic, if_pos hascii, ← Bool.not_eq_true, isAlpha_iff, not_or] at hletter
    rw [lowerChar_of_ascii hascii, toLower_of_not_isUpper (by simpa using hletter.1)]
  · have hc : c ≠ 'İ' := by
      rintro rfl
      simp [isAlphabetic_dotted] at hletter
    rw [isNumeric, if_neg hascii] at h
    rw [isAlphabetic, if_neg hascii] at hletter
    rw [lowerChar_of_ne hascii hc]
    rcases shifted_cases toLowerRuns c.toNat with he | ⟨run, hrun, hfirst, hlast, -⟩
    · rw [he, Char.ofNat_toNat]
    · rcases lowered_letters hrun with hrange | hapart
      · rw [inRanges_of_hasRange hrange hfirst hlast] at hletter
        simp at hletter
      · have hno := not_inRanges_of_apart hapart h
        simp [inRanges, hfirst, hlast] at hno

/-- **Letters** stay letters in lower case. -/
theorem exists_lowerChar (h : isAlphabetic c) (hc : c ≠ 'İ') : ∃ d, lowerChar c = [d] ∧ isAlphabetic d := by
  by_cases hascii : c.toNat < 0x80
  · exact ⟨_, lowerChar_of_ascii hascii, isAlphabetic_toLower hascii h⟩
  · refine ⟨_, lowerChar_of_ne hascii hc, ?_⟩
    rcases shifted_cases toLowerRuns c.toNat with he | ⟨run, hrun, hfirst, hlast, he⟩
    · rwa [he, Char.ofNat_toNat]
    · rw [he]
      rcases letters_lowered hrun with ⟨hbeyond, hrange⟩ | ⟨hone, hletter⟩
      · exact isAlphabetic_ofNat hbeyond hrange (image_mono hfirst) (image_mono hlast)
      · rwa [← Nat.le_antisymm hfirst (hone ▸ hlast)]

theorem exists_alphanumeric_lowerChar (h : isAlphanumeric c) (hc : c ≠ 'İ') :
    ∃ d, lowerChar c = [d] ∧ isAlphanumeric d := by
  rw [isAlphanumeric, Bool.or_eq_true] at h
  cases hletter : isAlphabetic c with
  | true =>
      obtain ⟨d, hd, hd'⟩ := exists_lowerChar hletter hc
      exact ⟨d, hd, by rw [isAlphanumeric, hd', Bool.true_or]⟩
  | false =>
      have hnumeral : isNumeric c := h.resolve_left (by simp [hletter])
      exact ⟨c, lowerChar_of_isNumeral hnumeral hletter, by rw [isAlphanumeric, hnumeral, Bool.or_true]⟩

/-- A numeral that is neither a letter nor a digit of ASCII. -/
def isForeignNumeral (c : Char) : Bool := isNumeric c && !isAlphabetic c && !c.isDigit

/-- The first character in lower case is a numeral where the character was one. -/
theorem exists_head_lowerChar (h : isAlphanumeric c) :
    ∃ d r, lowerChar c = d :: r ∧ isAlphanumeric d ∧ isForeignNumeral d = isForeignNumeral c := by
  by_cases hc : c = 'İ'
  · rw [hc]
    exact ⟨_, _, lowerChar_dotted, by decide, by simp [isForeignNumeral, isAlphabetic_dotted]; decide⟩
  · cases hletter : isAlphabetic c with
    | true =>
        obtain ⟨d, hd, hd'⟩ := exists_lowerChar hletter hc
        exact ⟨d, [], hd, by rw [isAlphanumeric, hd', Bool.true_or], by simp [isForeignNumeral, hletter, hd']⟩
    | false =>
        have hnumeral : isNumeric c := by simpa [isAlphanumeric, hletter] using h
        exact ⟨c, [], lowerChar_of_isNumeral hnumeral hletter, h, rfl⟩

end Schemata.Text
