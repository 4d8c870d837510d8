import Schemata.Entity.Java
import Schemata.Entity.Python
import Schemata.Proofs.Naming.Words

/-! # Names of fields in Java and Python

The name of a field is made of characters of identifiers and is no reserved word, since a mark is put after a
reserved word and no reserved word has it there.  The mark that is put before a digit is put before digits of
ASCII only, so a name that starts with another numeral stays as it is (`headSatisfies_prefixed_iff`).
`fieldNames_valid` says which names of columns become identifiers. -/

namespace Schemata.Entity

open Schemata.Text Schemata.Naming

variable {c : Char} {r : List Char} {name : String} {reserved : List String}

theorem headSatisfies_cons {p : Char → Bool} (h : name.toList = c :: r) : headSatisfies p name = p c := by
  rw [headSatisfies, h]

theorem exists_cons_of_ne (h : name ≠ "") : ∃ c r, name.toList = c :: r :=
  List.exists_cons_of_ne_nil (mt String.toList_eq_nil_iff.1 h)

/-! ### Sanitized names -/

/-- A character of identifiers, or the mark that is put for another one. -/
def plainChar (c : Char) : Char := if isIdentifierChar c then c else '_'

theorem toList_sanitize (name : String) : (sanitize name).toList = name.toList.map plainChar :=
  String.toList_ofList

theorem isIdentifierChar_plainChar (c : Char) : isIdentifierChar (plainChar c) := by
  unfold plainChar
  split
  · assumption
  · decide

theorem isIdentifierChar_sanitize (name : String) : ∀ c ∈ (sanitize name).toList, isIdentifierChar c := by
  rw [toList_sanitize, List.forall_mem_map]
  exact fun c _ => isIdentifierChar_plainChar c

/-! ### Digits at the front -/

/-- A sanitized name with a mark before a leading digit. -/
def prefixed (name : String) : String :=
  if headSatisfies Char.isDigit (sanitize name) then "_" ++ sanitize name else sanitize name

theorem toList_marked (s : String) : ("_" ++ s).toList = '_' :: s.toList := String.toList_append

theorem safeIdentifier_eq (reserved : List String) (name : String) :
    safeIdentifier reserved name =
      if reserved.contains (prefixed name) then prefixed name ++ "_" else prefixed name :=
  rfl

theorem isIdentifierChar_prefixed (name : String) : ∀ c ∈ (prefixed name).toList, isIdentifierChar c := by
  have hsanitize := isIdentifierChar_sanitize name
  unfold prefixed
  split
  · rw [String.toList_append, List.forall_mem_append]
    exact ⟨by decide, hsanitize⟩
  · exact hsanitize

theorem isIdentifierChar_safeIdentifier (reserved : List String) (name : String) :
    ∀ c ∈ (safeIdentifier reserved name).toList, isIdentifierChar c := by
  have hchars := isIdentifierChar_prefixed name
  rw [safeIdentifier_eq]
  split
  · rw [String.toList_append, List.forall_mem_append]
    exact ⟨hchars, by decide⟩
  · exact hchars

/-- A character that can start an identifier. -/
def startsIdentifier (c : Char) : Bool := isAlphabetic c || c == '_'

/-- Characters of identifiers that start none are numerals. -/
theorem startsIdentifier_iff (h : isIdentifierChar c) (hdigit : c.isDigit = false) :
    startsIdentifier c ↔ isForeignNumeral c = false := by
  by_cases hmark : c = '_'
  · rw [hmark]
    decide
  · have hchar : isAlphabetic c ∨ isNumeric c := by simpa [isIdentifierChar, isAlphanumeric, hmark] using h
    cases hletter : isAlphabetic c with
    | true => simp [startsIdentifier, isForeignNumeral, hletter]
    | false =>
        have hnumeral : isNumeric c := hchar.resolve_left (by simp [hletter])
        simp [startsIdentifier, isForeignNumeral, hletter, hnumeral, hdigit, hmark]

theorem isForeignNumeral_plainChar (c : Char) : isForeignNumeral (plainChar c) = isForeignNumeral c := by
  unfold plainChar
  split
  · rfl
  · rename_i hchar
    have hnumeral : isNumeric c = false := by
      simp only [isIdentifierChar, isAlphanumeric, Bool.or_eq_true, not_or] at hchar
      simpa using hchar.1.2
    have hmark : isForeignNumeral '_' = false := by decide
    rw [hmark, isForeignNumeral, hnumeral, Bool.false_and, Bool.false_and]

/-- A name starts like an identifier unless it starts with a numeral that is no digit of ASCII. -/
theorem headSatisfies_prefixed_iff (h : name.toList = c :: r) :
    headSatisfies startsIdentifier (prefixed name) ↔ isForeignNumeral c = false := by
  have hsanitize : (sanitize name).toList = plainChar c :: r.map plainChar := by
    rw [toList_sanitize, h, List.map_cons]
  rw [prefixed, headSatisfies_cons hsanitize, ← isForeignNumeral_plainChar]
  cases hdigit : (plainChar c).isDigit with
  | true =>
      rw [if_pos rfl, headSatisfies_cons (toList_marked _), isForeignNumeral, hdigit]
      simp [startsIdentifier]
  | false =>
      rw [if_neg (by simp), headSatisfies_cons hsanitize]
      exact startsIdentifier_iff (isIdentifierChar_plainChar c) hdigit

theorem prefixed_ne_empty (h : name ≠ "") : prefixed name ≠ "" := by
  have hsanitize : sanitize name ≠ "" := by
    rw [Ne, ← String.toList_eq_nil_iff, toList_sanitize, List.map_eq_nil_iff, String.toList_eq_nil_iff]
    exact h
  unfold prefixed
  split <;> simp [hsanitize]

/-! ### Names of fields -/

/-- A name of a field, where `first` is the character that its name starts with before it is repaired. -/
structure IsFieldName (reserved : List String) (first : Option Char) (name : String) : Prop where
  filled : name ≠ ""
  chars : ∀ c ∈ name.toList, isIdentifierChar c
  free : name ∉ reserved
  /-- The name starts like an identifier unless it starts with a numeral that is no digit of ASCII. -/
  starts : headSatisfies startsIdentifier name ↔ ∀ c ∈ first, isForeignNumeral c = false

theorem isFieldName_safeIdentifier (hreserved : ∀ word ∈ reserved, word.toList.getLast? ≠ some '_')
    (h : name ≠ "") : IsFieldName reserved name.toList.head? (safeIdentifier reserved name) := by
  obtain ⟨c, r, hname⟩ := exists_cons_of_ne h
  obtain ⟨d, t, hprefixed⟩ := exists_cons_of_ne (prefixed_ne_empty h)
  have hchars := isIdentifierChar_safeIdentifier reserved name
  have hstarts : headSatisfies startsIdentifier (prefixed name) ↔
      ∀ c ∈ name.toList.head?, isForeignNumeral c = false := by
    rw [headSatisfies_prefixed_iff hname, hname]
    simp
  rw [safeIdentifier_eq] at hchars ⊢
  split
  · rename_i hword
    have hmarked : (prefixed name ++ "_").toList = d :: (t ++ ['_']) := by
      rw [String.toList_append, hprefixed]
      rfl
    rw [if_pos hword] at hchars
    refine ⟨by simp, hchars, fun hmem => hreserved _ hmem ?_, ?_⟩
    · rw [String.toList_append]
      exact List.getLast?_concat
    · rw [← hstarts, headSatisfies_cons hmarked, headSatisfies_cons hprefixed]
  · rename_i hfree
    rw [if_neg hfree] at hchars
    exact ⟨prefixed_ne_empty h, hchars, by simpa using hfree, hstarts⟩

/-- The character of a column's name that the name of its field starts with: in camel case, the first letter
or digit. -/
def leading (camel : Bool) (columnName : String) : Option Char :=
  if camel then columnName.toList.find? isAlphanumeric else columnName.toList.head?

theorem fieldName_ne_empty (camel : Bool) (h : name ≠ "") : fieldName camel name ≠ "" := by
  unfold fieldName
  dsimp only
  split
  · rename_i hcamel
    simpa using (Bool.and_eq_true_iff.1 hcamel).2
  · exact h

/-- Lower case does not change whether a name starts with a numeral. -/
theorem isForeignNumeral_leading (camel : Bool) (name : String) :
    (∀ c ∈ (fieldName camel name).toList.head?, isForeignNumeral c = false) ↔
      ∀ c ∈ leading camel name, isForeignNumeral c = false := by
  cases camel with
  | false => rfl
  | true =>
      have hhead := head?_camelCase name
      cases hfind : name.toList.find? isAlphanumeric with
      | none =>
          rw [hfind, Option.bind_none, List.head?_eq_none_iff, String.toList_eq_nil_iff] at hhead
          have hfield : fieldName true name = name := by simp [fieldName, hhead]
          rw [hfield, leading, if_pos rfl, hfind]
          refine iff_of_true (fun c hc => ?_) (by simp)
          have hplain : isAlphanumeric c = false := by
            simpa using List.find?_eq_none.1 hfind c (List.mem_of_head? hc)
          rw [isAlphanumeric, Bool.or_eq_false_iff] at hplain
          rw [isForeignNumeral, hplain.2, Bool.false_and, Bool.false_and]
      | some c =>
          obtain ⟨d, t, hd, -, hforeign⟩ := exists_head_lowerChar (List.find?_some hfind)
          rw [hfind, Option.bind_some, hd, List.head?_cons] at hhead
          have hfield : fieldName true name = camelCase name := by
            have hne : camelCase name ≠ "" := by
              intro he
              simp [he] at hhead
            simp [fieldName, hne]
          rw [hfield, hhead, leading, if_pos rfl, hfind]
          simp [hforeign]

theorem java_words_end : ∀ word ∈ Java.reservedWords, word.toList.getLast? ≠ some '_' := by
  decide

theorem python_words_end : ∀ word ∈ Python.reservedWords, word.toList.getLast? ≠ some '_' := by
  decide

/-- **Names of fields** in Java and Python are identifiers and no reserved words, unless what they start with is a
numeral that is neither a letter nor a digit of ASCII. -/
theorem fieldNames_valid (options : Options) {columnName : String} (h : columnName ≠ "") :
    IsFieldName Java.reservedWords (leading options.camelCase columnName)
        (Java.fieldName options columnName) ∧
      IsFieldName Python.reservedWords columnName.toList.head? (Python.attributeName columnName) := by
  have hjava := isFieldName_safeIdentifier java_words_end (fieldName_ne_empty options.camelCase h)
  exact ⟨⟨hjava.filled, hjava.chars, hjava.free, hjava.starts.trans (isForeignNumeral_leading _ _)⟩,
    isFieldName_safeIdentifier python_words_end h⟩

/-- A column whose name is a reserved word in both languages. -/
theorem fieldNames_class :
    "class" ≠ "" ∧ IsFieldName Java.reservedWords (leading true "class") (Java.fieldName {} "class") ∧
      IsFieldName Python.reservedWords "class".toList.head? (Python.attributeName "class") :=
  have hfilled : "class" ≠ "" := by decide
  ⟨hfilled, fieldNames_valid {} hfilled⟩

set_option maxRecDepth 4096 in
/-- A numeral that is no digit of ASCII cannot start an identifier, and is left at the start of a name. -/
theorem indic_numeral_leads :
    headSatisfies startsIdentifier (Java.fieldName {} "٣rd_party") = false ∧
      headSatisfies startsIdentifier (Python.attributeName "٣rd_party") = false := by
  decide

end Schemata.Entity
