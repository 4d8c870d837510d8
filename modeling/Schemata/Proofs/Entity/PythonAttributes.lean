import Schemata.Proofs.Entity.PythonLines

/-! # Attributes of classes in Python

Two columns have the same attribute exactly if their names clash: the name of one is repaired to what the
other is written as (`attributeName_eq_iff`).  `keepsColumns` says for which tables every column has an
attribute of its own. -/

namespace Schemata.Entity.Python

open Schemata.Text

variable {a b : String}

/-! ### Names that clash -/

/-- The name `a` is repaired to what `b` is written as. -/
inductive Meets (a b : String) : Prop
  /-- Both are the same up to characters that no identifier holds. -/
  | alike (h : sanitize a = sanitize b)
  /-- A mark is put before the digit that `a` starts with. -/
  | digit (h : headSatisfies Char.isDigit a) (hb : sanitize b = "_" ++ sanitize a)
  /-- A mark is put after the reserved word `a`. -/
  | word (h : a ∈ reservedWords) (hb : sanitize b = a ++ "_")

/-- One of the names meets the other. -/
def Clash (a b : String) : Prop := Meets a b ∨ Meets b a

/-! ### Marks before digits -/

theorem isDigit_plainChar (c : Char) : (plainChar c).isDigit = c.isDigit := by
  unfold plainChar
  split
  · rfl
  · rename_i hchar
    have hno : c.isDigit = false := by
      rw [← Bool.not_eq_true]
      intro hdigit
      have hlast : c.toNat ≤ 57 := (Char.isDigit_iff_toNat.1 hdigit).2
      have hascii : c.toNat < 0x80 := by omega
      simp [isIdentifierChar, isAlphanumeric, isNumeric, hascii, hdigit] at hchar
    rw [hno]
    decide

theorem headSatisfies_sanitize (a : String) :
    headSatisfies Char.isDigit (sanitize a) = headSatisfies Char.isDigit a := by
  rw [headSatisfies, headSatisfies, toList_sanitize]
  cases a.toList with
  | nil => rfl
  | cons c r => exact isDigit_plainChar c

theorem prefixed_of_digit (h : headSatisfies Char.isDigit a) : prefixed a = "_" ++ sanitize a := by
  rw [prefixed, headSatisfies_sanitize, if_pos h]

theorem prefixed_of_not_digit (h : headSatisfies Char.isDigit a = false) : prefixed a = sanitize a := by
  rw [prefixed, headSatisfies_sanitize, if_neg (by simp [h])]

theorem sanitize_ne_marked (h : headSatisfies Char.isDigit a) (s : String) : sanitize a ≠ "_" ++ s := by
  intro he
  rw [← headSatisfies_sanitize, he, headSatisfies_cons (toList_marked s)] at h
  exact absurd h (by decide)

theorem sanitize_ne_of_digit (ha : headSatisfies Char.isDigit a) (hb : headSatisfies Char.isDigit b = false) :
    sanitize a ≠ sanitize b := by
  intro he
  rw [← headSatisfies_sanitize, he, headSatisfies_sanitize, hb] at ha
  exact absurd ha (by decide)

/-- Names with their marks are the same if they were, or if one was written with the mark that the other is
given. -/
theorem prefixed_eq_iff : prefixed a = prefixed b ↔ sanitize a = sanitize b ∨
    (headSatisfies Char.isDigit a ∧ sanitize b = "_" ++ sanitize a) ∨
      (headSatisfies Char.isDigit b ∧ sanitize a = "_" ++ sanitize b) := by
  cases ha : headSatisfies Char.isDigit a <;> cases hb : headSatisfies Char.isDigit b
  · simp [prefixed_of_not_digit, ha, hb]
  · have hne := (sanitize_ne_of_digit hb ha).symm
    simp [prefixed_of_not_digit ha, prefixed_of_digit hb, hne]
  · have hne := sanitize_ne_of_digit ha hb
    simp [prefixed_of_digit ha, prefixed_of_not_digit hb, hne, eq_comm]
  · have hleft := sanitize_ne_marked ha (sanitize b)
    have hright := sanitize_ne_marked hb (sanitize a)
    simp [prefixed_of_digit ha, prefixed_of_digit hb, hleft, hright]

/-! ### Marks after reserved words -/

theorem reservedWords_plain : ∀ word ∈ reservedWords,
    word ≠ "" ∧ '_' ∉ word.toList ∧ sanitize word = word ∧ headSatisfies Char.isDigit word = false := by
  decide

/-- A name in which no character was replaced. -/
theorem sanitize_eq_self (h : '_' ∉ (sanitize a).toList) : sanitize a = a := by
  have hchar : ∀ c ∈ a.toList, plainChar c = c := by
    intro c hc
    have hne : plainChar c ≠ '_' := by
      intro he
      rw [toList_sanitize, ← he] at h
      exact h (List.mem_map_of_mem hc)
    unfold plainChar at hne ⊢
    split
    · rfl
    · rename_i hchar
      exact absurd (if_neg hchar) hne
  rw [← String.toList_inj, toList_sanitize, List.map_congr_left hchar, List.map_id']

theorem prefixed_of_reserved (h : a ∈ reservedWords) : prefixed a = a := by
  obtain ⟨-, -, hsanitize, hdigit⟩ := reservedWords_plain a h
  rw [prefixed_of_not_digit hdigit, hsanitize]

/-- Only a reserved word is repaired to one. -/
theorem mem_reservedWords_prefixed : prefixed a ∈ reservedWords ↔ a ∈ reservedWords := by
  constructor
  · intro h
    have hmark := (reservedWords_plain _ h).2.1
    cases hdigit : headSatisfies Char.isDigit a with
    | true =>
        rw [prefixed_of_digit hdigit, toList_marked] at hmark
        simp at hmark
    | false =>
        rw [prefixed_of_not_digit hdigit] at h hmark
        rwa [sanitize_eq_self hmark] at h
  · intro h
    rwa [prefixed_of_reserved h]

theorem attributeName_of_reserved (h : a ∈ reservedWords) : attributeName a = a ++ "_" := by
  rw [attributeName, safeIdentifier_eq, prefixed_of_reserved h, if_pos (by simpa using h)]

theorem attributeName_of_not_reserved (h : a ∉ reservedWords) : attributeName a = prefixed a := by
  rw [attributeName, safeIdentifier_eq, if_neg]
  rwa [List.contains_iff_mem, mem_reservedWords_prefixed]

/-- A name becomes a reserved word with its mark only if it is written so. -/
theorem prefixed_eq_word_iff (h : a ∈ reservedWords) : prefixed b = a ++ "_" ↔ sanitize b = a ++ "_" := by
  cases hb : headSatisfies Char.isDigit b with
  | false => rw [prefixed_of_not_digit hb]
  | true =>
      obtain ⟨hfilled, hmark, -, hdigit⟩ := reservedWords_plain a h
      obtain ⟨c, r, ha⟩ := exists_cons_of_ne hfilled
      have hword : (a ++ "_").toList = c :: (r ++ ['_']) := by
        rw [String.toList_append, ha]
        rfl
      refine iff_of_false (fun he => ?_) (fun he => ?_)
      · have hcons := congrArg String.toList he
        rw [prefixed_of_digit hb, toList_marked, hword] at hcons
        exact hmark (by rw [(List.cons.inj hcons).1, ha]; exact List.mem_cons_self ..)
      · rw [← headSatisfies_sanitize, he, headSatisfies_cons hword] at hb
        rw [headSatisfies_cons ha, hb] at hdigit
        exact absurd hdigit (by decide)

/-! ### Names of attributes -/

/-- A name that was written with a mark is no reserved word. -/
theorem not_mem_reservedWords_of_sanitize (h : '_' ∈ (sanitize a).toList) : a ∉ reservedWords := by
  intro hword
  obtain ⟨-, hmark, hsanitize, -⟩ := reservedWords_plain a hword
  exact hmark (hsanitize ▸ h)

theorem attributeName_of_meets (h : Meets a b) : attributeName a = attributeName b := by
  cases h with
  | alike h => rw [attributeName, attributeName, safeIdentifier, safeIdentifier, h]
  | digit h hb =>
      have hword : a ∉ reservedWords := by
        intro hword
        rw [(reservedWords_plain a hword).2.2.2] at h
        exact absurd h (by decide)
      have hother : b ∉ reservedWords :=
        not_mem_reservedWords_of_sanitize (by rw [hb, toList_marked]; exact List.mem_cons_self ..)
      rw [attributeName_of_not_reserved hword, attributeName_of_not_reserved hother]
      exact prefixed_eq_iff.2 (.inr (.inl ⟨h, hb⟩))
  | word h hb =>
      have hother : b ∉ reservedWords :=
        not_mem_reservedWords_of_sanitize (by rw [hb, String.toList_append]; simp)
      rw [attributeName_of_reserved h, attributeName_of_not_reserved hother]
      exact ((prefixed_eq_word_iff h).2 hb).symm

/-- **Columns have the same attribute** exactly if their names clash. -/
theorem attributeName_eq_iff : attributeName a = attributeName b ↔ Clash a b := by
  constructor
  · intro h
    by_cases ha : a ∈ reservedWords <;> by_cases hb : b ∈ reservedWords
    · rw [attributeName_of_reserved ha, attributeName_of_reserved hb] at h
      exact .inl (.alike (by rw [(String.append_left_inj _).1 h]))
    · rw [attributeName_of_reserved ha, attributeName_of_not_reserved hb] at h
      exact .inl (.word ha ((prefixed_eq_word_iff ha).1 h.symm))
    · rw [attributeName_of_not_reserved ha, attributeName_of_reserved hb] at h
      exact .inr (.word hb ((prefixed_eq_word_iff hb).1 h))
    · rw [attributeName_of_not_reserved ha, attributeName_of_not_reserved hb] at h
      rcases prefixed_eq_iff.1 h with halike | ⟨hdigit, he⟩ | ⟨hdigit, he⟩
      · exact .inl (.alike halike)
      · exact .inl (.digit hdigit he)
      · exact .inr (.digit hdigit he)
  · rintro (h | h)
    · exact attributeName_of_meets h
    · exact (attributeName_of_meets h).symm

/-! ### Attributes of a table -/

/-- What becomes of the columns of a table in both kinds of classes. -/
structure KeepsColumns (options : Options) (t : Table) : Prop where
  dataclass : Declares t (Dataclass.text options t)
  mappedClass : Declares t (MappedClass.text options t)
  /-- Every column has an attribute of its own unless the names of two clash. -/
  distinct : (attributeNames t).Nodup ↔ t.columns.Pairwise fun a b => ¬Clash a.name b.name

/-- **Attributes of classes in Python**: there is one line for each column, and no two of them declare the
same attribute exactly if no two names of columns clash. -/
theorem keepsColumns (options : Options) (t : Table) : KeepsColumns options t := by
  refine ⟨declares_dataclass options t, declares_mappedClass options t, ?_⟩
  rw [attributeNames, List.Nodup, List.pairwise_map]
  simp only [Ne, attributeName_eq_iff]

/-- A table in which a column takes the attribute of another in each of the three ways. -/
def rooms : Table where
  dialect := .mysql
  name := "rooms"
  columns := [{ name := "a b", rawType := "int" }, { name := "a_b", rawType := "int" },
    { name := "1a", rawType := "int" }, { name := "_1a", rawType := "int" },
    { name := "class", rawType := "int" }, { name := "class_", rawType := "int" }]

/-- Its columns have six names and its attributes three. -/
theorem rooms_overwritten : (rooms.columns.map (·.name)).Nodup ∧ ¬(attributeNames rooms).Nodup ∧
    attributeNames rooms = ["a_b", "a_b", "_1a", "_1a", "class_", "class_"] := by
  decide

end Schemata.Entity.Python
