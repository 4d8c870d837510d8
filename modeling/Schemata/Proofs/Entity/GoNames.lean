import Schemata.Entity.Go
import Schemata.Proofs.Entity.FieldNames

/-! # Names of fields in Go

A field is exported if its name starts with an upper-case character.  The name is made by putting characters
in upper case, and an `X` is put before what does not start with a letter, so a name is not exported exactly if
it starts with a letter that lacks a capital (`headSatisfies_startingWithLetter_iff`).  The upper-case forms of
some letters are written with combining marks, which no identifier holds.  `namesField_fieldName` says which
names of columns become exported identifiers; those in ASCII do. -/

namespace Schemata.Entity.Go

open Schemata.Text Schemata.Naming

variable {c d : Char} {r : List Char} {s w : String} {options : Options}

/-! ### Capitals -/

/-- A letter whose upper-case form does not start with an upper-case character. -/
def LacksCapital (c : Char) : Prop := ∃ d ∈ (upperChar c).head?, isAlphabetic d ∧ isUppercase d = false

/-- A character whose upper-case form has characters of identifiers only. -/
def IsPlainCapital (c : Char) : Prop := ∀ d ∈ upperChar c, isIdentifierChar d

theorem expansions_filled : ∀ e ∈ toUpperExpansions, e.2 ≠ [] := by
  decide

theorem upperChar_ne_nil (c : Char) : upperChar c ≠ [] := by
  unfold upperChar caseMap
  split
  · simp
  · split
    · rename_i codes hlookup
      simpa using expansions_filled _ (Sql.mem_of_lookup hlookup)
    · simp

/-! ### The first character -/

theorem head?_upperChar_append (c : Char) (r : List Char) :
    (upperChar c ++ r).head? = (upperChar c).head? := by
  obtain ⟨d, t, hd⟩ := List.exists_cons_of_ne_nil (upperChar_ne_nil c)
  rw [hd]
  rfl

theorem headSatisfies_mark (p : Char → Bool) (s : String) : headSatisfies p ("X" ++ s) = p 'X' :=
  headSatisfies_cons String.toList_append

/-- A name starts with a letter. -/
theorem headSatisfies_startingWithLetter (s : String) :
    headSatisfies isAlphabetic (startingWithLetter s) := by
  unfold startingWithLetter
  split
  · assumption
  · rw [headSatisfies_mark]
    decide

/-- It is exported unless its first letter stays as it is without being in upper case. -/
theorem headSatisfies_startingWithLetter_iff :
    headSatisfies isUppercase (startingWithLetter s) ↔
      ∀ d ∈ s.toList.head?, isAlphabetic d → isUppercase d := by
  have hmark : headSatisfies isUppercase ("X" ++ s) := by
    rw [headSatisfies_mark]
    decide
  unfold startingWithLetter
  cases hs : s.toList with
  | nil =>
      have hno : headSatisfies isAlphabetic s = false := by rw [headSatisfies, hs]
      simp [hno, hmark]
  | cons d r =>
      rw [headSatisfies_cons hs]
      cases hd : isAlphabetic d with
      | true => simp [headSatisfies_cons hs, hd]
      | false => simp [hmark, hd]

theorem isIdentifierChar_startingWithLetter :
    (∀ d ∈ (startingWithLetter s).toList, isIdentifierChar d) ↔ ∀ d ∈ s.toList, isIdentifierChar d := by
  unfold startingWithLetter
  split
  · rfl
  · rw [String.toList_append, List.forall_mem_append]
    exact and_iff_right (by decide)

/-! ### Words -/

set_option maxRecDepth 4096 in
/-- A combining mark is no character of identifiers. -/
theorem isIdentifierChar_mark : isIdentifierChar '\u0307' = false := by
  decide

/-- Words are made of characters of identifiers unless a letter has a mark in lower case. -/
theorem isIdentifierChar_words (s : String) :
    (∀ w ∈ words s, ∀ d ∈ w.toList, isIdentifierChar d) ↔ 'İ' ∉ s.toList := by
  constructor
  · intro hwords hdotted
    obtain ⟨piece, hpiece, hmem⟩ := mem_pieces_iff.2 ⟨hdotted, by decide⟩
    have hmark : '\u0307' ∈ piece.flatMap lowerChar :=
      List.mem_flatMap.2 ⟨_, hmem, by rw [lowerChar_dotted]; decide⟩
    have hchar := hwords _ (List.mem_map_of_mem hpiece) '\u0307' (by rwa [String.toList_ofList])
    simp [isIdentifierChar_mark] at hchar
  · intro hdotted w hw d hd
    obtain ⟨c, hmem, halnum, hd⟩ := exists_of_mem_word hw hd
    obtain ⟨d', hlower, halnum'⟩ := exists_alphanumeric_lowerChar halnum fun he => hdotted (he ▸ hmem)
    rw [hlower, List.mem_singleton] at hd
    rw [hd, isIdentifierChar, halnum', Bool.true_or]

/-- The initialisms are words in ASCII. -/
theorem initialisms_plain : ∀ w ∈ initialisms, ∀ c ∈ w.toList, isIdentifierChar c ∧ IsPlainCapital c := by
  unfold IsPlainCapital
  decide

/-- A word is exported with its first character in upper case, and what comes after it does not change whether
the characters are those of identifiers. -/
theorem exists_exportedWord (h : w.toList = c :: r) :
    ∃ t, (exportedWord w).toList = upperChar c ++ t ∧
      ((∀ d ∈ t, isIdentifierChar d) ↔ ∀ d ∈ r, isIdentifierChar d) := by
  unfold exportedWord
  split
  · rename_i hinitialism
    have hplain := initialisms_plain w (by simpa using hinitialism)
    rw [h, List.forall_mem_cons] at hplain
    refine ⟨r.flatMap upperChar, by rw [upper, h, String.toList_ofList, List.flatMap_cons], iff_of_true ?_ ?_⟩
    · intro d hd
      obtain ⟨c', hc', hd⟩ := List.mem_flatMap.1 hd
      exact (hplain.2 c' hc').2 d hd
    · exact fun d hd => (hplain.2 d hd).1
  · exact ⟨r, toList_capitalize h, Iff.rfl⟩

/-! ### Names of fields -/

/-- The characters of a column's name that are put in upper case: the first ones of its words, or just the
first one. -/
def raised (camel : Bool) (columnName : String) : List Char :=
  if camel then (words columnName).filterMap (·.toList.head?) else (sanitize columnName).toList.head?.toList

/-- The name of the field before a mark is put in front of it. -/
def unmarked (camel : Bool) (columnName : String) : String :=
  if camel then String.join ((words columnName).map exportedWord) else capitalize (sanitize columnName)

theorem fieldName_eq (options : Options) (columnName : String) :
    fieldName options columnName = startingWithLetter (unmarked options.camelCase columnName) := by
  unfold fieldName unmarked
  split <;> rfl

theorem toList_unmarked_true (s : String) :
    (unmarked true s).toList = (words s).flatMap fun w => (exportedWord w).toList := by
  rw [unmarked, if_pos rfl, String.toList_join, List.flatMap_map]

theorem head?_unmarked (camel : Bool) (s : String) :
    (unmarked camel s).toList.head? = (raised camel s).head?.bind fun c => (upperChar c).head? := by
  cases camel with
  | true =>
      rw [toList_unmarked_true, raised, if_pos rfl]
      cases hwords : words s with
      | nil => rfl
      | cons w rest =>
          obtain ⟨c, r, hw, -⟩ := exists_cons_of_mem_words (hwords ▸ List.mem_cons_self ..)
          obtain ⟨t, ht, -⟩ := exists_exportedWord hw
          rw [List.flatMap_cons, ht, List.append_assoc, head?_upperChar_append]
          simp [hw]
  | false =>
      have hname : unmarked false s = capitalize (sanitize s) := rfl
      have hraised : raised false s = (sanitize s).toList.head?.toList := rfl
      rw [hname, hraised]
      cases hs : (sanitize s).toList with
      | nil => simp [capitalize, hs]
      | cons c r =>
          rw [toList_capitalize hs, head?_upperChar_append]
          rfl

theorem isIdentifierChar_unmarked (camel : Bool) (s : String) :
    (∀ d ∈ (unmarked camel s).toList, isIdentifierChar d) ↔
      (∀ c ∈ raised camel s, IsPlainCapital c) ∧ (camel → 'İ' ∉ s.toList) := by
  cases camel with
  | true =>
      have hword : ∀ w ∈ words s, (∀ d ∈ (exportedWord w).toList, isIdentifierChar d) ↔
          (∀ c ∈ w.toList.head?, IsPlainCapital c) ∧ ∀ d ∈ w.toList, isIdentifierChar d := by
        intro w hw
        obtain ⟨c, r, hcons, halnum⟩ := exists_cons_of_mem_words hw
        obtain ⟨t, ht, hchars⟩ := exists_exportedWord hcons
        have hc : isIdentifierChar c := by rw [isIdentifierChar, halnum, Bool.true_or]
        rw [ht, List.forall_mem_append, hchars, hcons, List.forall_mem_cons]
        simp [IsPlainCapital, hc]
      rw [toList_unmarked_true, raised, if_pos rfl, List.forall_mem_flatMap, forall₂_congr hword, forall₂_and,
        isIdentifierChar_words, List.forall_mem_filterMap]
      simp
  | false =>
      have hname : unmarked false s = capitalize (sanitize s) := rfl
      have hraised : raised false s = (sanitize s).toList.head?.toList := rfl
      rw [hname, hraised]
      cases hs : (sanitize s).toList with
      | nil => simp [capitalize, hs]
      | cons c r =>
          have hchars := isIdentifierChar_sanitize s
          rw [hs, List.forall_mem_cons] at hchars
          rw [toList_capitalize hs, List.forall_mem_append]
          simpa [IsPlainCapital] using fun _ => hchars.2

theorem isIdentifierChar_raised (camel : Bool) (s : String) : ∀ c ∈ raised camel s, isIdentifierChar c := by
  unfold raised
  split
  · rw [List.forall_mem_filterMap]
    intro w hw c hc
    obtain ⟨d, r, hcons, halnum⟩ := exists_cons_of_mem_words hw
    obtain rfl : d = c := by simpa [hcons] using hc
    rw [isIdentifierChar, halnum, Bool.true_or]
  · intro c hc
    exact isIdentifierChar_sanitize s c (List.mem_of_head? (by simpa using hc))

/-! ### ASCII -/

/-- Characters of ASCII stay in ASCII, and letters among them have capitals. -/
theorem ascii_cases (hc : c.toNat < 0x80) : ¬LacksCapital c ∧ (isIdentifierChar c → IsPlainCapital c) ∧
    ∀ d ∈ lowerChar c, d.toNat < 0x80 := by
  have hall : ∀ n < 0x80, ¬LacksCapital (Char.ofNat n) ∧
      (isIdentifierChar (Char.ofNat n) → IsPlainCapital (Char.ofNat n)) ∧
      ∀ d ∈ lowerChar (Char.ofNat n), d.toNat < 0x80 := by
    unfold LacksCapital IsPlainCapital
    simp only [not_exists, not_and]
    decide +kernel
  have hcases := hall c.toNat hc
  rwa [Char.ofNat_toNat] at hcases

theorem plainChar_ascii (hc : c.toNat < 0x80) : (plainChar c).toNat < 0x80 := by
  unfold plainChar
  split
  · exact hc
  · decide

theorem raised_ascii (camel : Bool) (h : ∀ c ∈ s.toList, c.toNat < 0x80) :
    ∀ c ∈ raised camel s, c.toNat < 0x80 := by
  unfold raised
  split
  · rw [List.forall_mem_filterMap]
    intro w hw c hc
    obtain ⟨e, he, -, hc⟩ := exists_of_mem_word hw (List.mem_of_head? hc)
    exact (ascii_cases (h e he)).2.2 c hc
  · intro c hc
    have hmem : c ∈ s.toList.map plainChar := toList_sanitize s ▸ List.mem_of_head? (by simpa using hc)
    obtain ⟨e, he, rfl⟩ := List.mem_map.1 hmem
    exact plainChar_ascii (h e he)

/-! ### Exported identifiers -/

/-- How far the name of the field for a column is an exported identifier. -/
structure NamesField (camel : Bool) (columnName name : String) : Prop where
  /-- The name starts with a letter, so it is not empty. -/
  letter : headSatisfies isAlphabetic name
  /-- It starts with an upper-case character unless the first letter put in upper case lacks a capital. -/
  exported : headSatisfies isUppercase name ↔ ∀ c ∈ (raised camel columnName).head?, ¬LacksCapital c
  /-- Its characters are those of identifiers unless a letter is put in upper or lower case with a mark. -/
  plain : (∀ c ∈ name.toList, isIdentifierChar c) ↔
    (∀ c ∈ raised camel columnName, IsPlainCapital c) ∧ (camel → 'İ' ∉ columnName.toList)
  /-- A name in ASCII becomes an exported identifier. -/
  ascii : (∀ c ∈ columnName.toList, c.toNat < 0x80) →
    headSatisfies isUppercase name ∧ ∀ c ∈ name.toList, isIdentifierChar c

theorem namesField_startingWithLetter (camel : Bool) (s : String) :
    NamesField camel s (startingWithLetter (unmarked camel s)) := by
  have hexported : headSatisfies isUppercase (startingWithLetter (unmarked camel s)) ↔
      ∀ c ∈ (raised camel s).head?, ¬LacksCapital c := by
    rw [headSatisfies_startingWithLetter_iff, head?_unmarked]
    cases (raised camel s).head? <;> simp [LacksCapital]
  have hplain := isIdentifierChar_startingWithLetter.trans (isIdentifierChar_unmarked camel s)
  refine ⟨headSatisfies_startingWithLetter _, hexported, hplain, fun hascii => ?_⟩
  have hraised := raised_ascii camel hascii
  have hdotted : 'İ' ∉ s.toList := fun hmem => absurd (hascii _ hmem) (by decide)
  exact ⟨hexported.2 fun c hc => (ascii_cases (hraised c (List.mem_of_head? hc))).1,
    hplain.2 ⟨fun c hc => (ascii_cases (hraised c hc)).2.1 (isIdentifierChar_raised camel s c hc),
      fun _ => hdotted⟩⟩

/-- **Names of fields** in Go start with a letter.  They are exported exactly if that letter has a capital, and
they are identifiers exactly if no letter is written with a mark in upper or lower case. -/
theorem namesField_fieldName (options : Options) (columnName : String) :
    NamesField options.camelCase columnName (fieldName options columnName) ∧
      NamesField true columnName (exportedName columnName) := by
  rw [fieldName_eq]
  exact ⟨namesField_startingWithLetter _ _, namesField_startingWithLetter true _⟩

set_option maxRecDepth 4096 in
/-- Letters of a script without case are left at the start of a name, and a name may hold a combining mark. -/
theorem caseless_leads :
    headSatisfies isUppercase (exportedName "用户") = false ∧
      (∀ camel, headSatisfies isUppercase (fieldName { camelCase := camel } "用户") = false) ∧
      ¬∀ c ∈ (exportedName "ǰ").toList, isIdentifierChar c := by
  decide

end Schemata.Entity.Go
