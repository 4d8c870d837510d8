import Schemata.Entity.Identifier
import Schemata.Entity.Language
import Schemata.Json
import Schemata.Proofs.Sql.Quoting

/-! # Texts on one line

A text is put on one line by joining its lines with spaces.  The characters of its lines are all but the ends
of the lines (`mem_lineList_iff`), so a carriage return that no line feed follows is left where it was
(`return_mem_onOneLine_iff`).  The texts that entities are put together from are on one line as well. -/

namespace Schemata.Text

variable {cs r : List Char}

/-! ### Lines -/

/-- A character of a text that is neither a line feed nor a carriage return before one. -/
def IsKept (x : Char) (cs : List Char) : Prop :=
  ∃ before after, cs = before ++ x :: after ∧ x ≠ '\n' ∧ (x = '\r' → after.head? ≠ some '\n')

/-- A carriage return that no line feed follows. -/
def HasBareReturn (cs : List Char) : Prop :=
  ∃ before after, cs = before ++ '\r' :: after ∧ after.head? ≠ some '\n'

theorem isKept_cons {x c : Char} :
    IsKept x (c :: r) ↔ (x = c ∧ c ≠ '\n' ∧ (c = '\r' → r.head? ≠ some '\n')) ∨ IsKept x r := by
  constructor
  · rintro ⟨before, after, he, hx⟩
    cases before with
    | nil =>
        obtain ⟨rfl, rfl⟩ := List.cons.inj he
        exact .inl ⟨rfl, hx⟩
    | cons d before =>
        obtain ⟨rfl, rfl⟩ := List.cons.inj he
        exact .inr ⟨before, after, rfl, hx⟩
  · rintro (⟨rfl, hx⟩ | ⟨before, after, rfl, hx⟩)
    · exact ⟨[], r, rfl, hx⟩
    · exact ⟨c :: before, after, rfl, hx⟩

/-- A character that ends no line is kept. -/
theorem isKept_cons_of_ne {x c : Char} (hfeed : c ≠ '\n') (hreturn : ∀ t, c = '\r' → r ≠ '\n' :: t) :
    IsKept x (c :: r) ↔ x = c ∨ IsKept x r := by
  rw [isKept_cons, and_iff_left]
  refine ⟨hfeed, fun hc hr => ?_⟩
  obtain ⟨t, rfl⟩ := List.head?_eq_some_iff.1 hr
  exact hreturn t hc rfl

/-- **The characters of the lines** are those of the text, but for the ends of its lines. -/
theorem mem_lineList_iff {x : Char} : (∃ line ∈ lineList cs, x ∈ line) ↔ IsKept x cs := by
  fun_induction lineList cs with
  | case1 => simp [IsKept]
  | case2 r ih => simp [isKept_cons, ih]
  | case3 r ih => simp [isKept_cons, ih]
  | case4 c r hfeed hreturn hnil ih =>
      rw [hnil] at ih
      rw [isKept_cons_of_ne hfeed hreturn, ← ih]
      simp
  | case5 c r hfeed hreturn line rest hcons ih =>
      rw [hcons] at ih
      rw [isKept_cons_of_ne hfeed hreturn, ← ih]
      simp [or_assoc]

/-! ### Joined lines -/

theorem toList_onOneLine (s : String) : (onOneLine s).toList = [' '].intercalate (lineList s.toList) :=
  toList_intercalate_ofList " " _

theorem feed_not_mem_onOneLine (s : String) : '\n' ∉ (onOneLine s).toList := by
  rw [toList_onOneLine, mem_intercalate_iff (by decide), mem_lineList_iff]
  rintro ⟨_, _, -, hfeed, -⟩
  exact hfeed rfl

/-- Only carriage returns before line feeds are taken out. -/
theorem return_mem_onOneLine_iff (s : String) : '\r' ∈ (onOneLine s).toList ↔ HasBareReturn s.toList := by
  rw [toList_onOneLine, mem_intercalate_iff (by decide), mem_lineList_iff]
  simp [IsKept, HasBareReturn]

/-! ### Parts on one line -/

variable {a b : String}

theorem feed_not_mem_append : '\n' ∉ (a ++ b).toList ↔ '\n' ∉ a.toList ∧ '\n' ∉ b.toList := by
  rw [String.toList_append, List.mem_append, not_or]

theorem feed_not_mem_intercalate {parts : List String} (h : ∀ part ∈ parts, '\n' ∉ part.toList) :
    '\n' ∉ (", ".intercalate parts).toList := by
  rw [String.toList_intercalate, mem_intercalate_of_notMem (by decide)]
  simpa using h

end Schemata.Text

namespace Schemata.Entity

open Schemata.Text

variable {a : String}

theorem hexDigit_ne_feed : ∀ n < 16, Json.hexDigit n ≠ '\n' := by
  decide

theorem feed_not_mem_escapeChar (c : Char) : '\n' ∉ Json.escapeChar c := by
  by_cases hcontrol : c.toNat < 0x20
  · have hhigh := hexDigit_ne_feed (c.toNat / 16) (by omega)
    have hlow := hexDigit_ne_feed (c.toNat % 16) (by omega)
    unfold Json.escapeChar
    split_ifs <;> simp [hhigh.symm, hlow.symm]
  · have hc : c ≠ '\n' := by
      rintro rfl
      exact hcontrol (by decide)
    unfold Json.escapeChar
    split_ifs <;> simp [hc.symm]

theorem feed_not_mem_stringLiteral (s : String) : '\n' ∉ (Json.stringLiteral s).toList := by
  rw [Json.stringLiteral, String.toList_ofList]
  simp [feed_not_mem_escapeChar]

theorem isDigit_of_isDigitText (h : isDigitText a) : ∀ c ∈ a.toList, c.isDigit := by
  rw [isDigitText, Bool.and_eq_true, List.all_eq_true] at h
  exact h.2

/-- Type parameters that become arguments are digits. -/
theorem feed_not_mem_of_filter {o : Option String} (h : o.filter isDigitText = some a) : '\n' ∉ a.toList :=
  fun hmem => absurd (isDigit_of_isDigitText (Option.filter_eq_some_iff.1 h).2 _ hmem) (by decide)

/-- What holds of the types of all families and of the fallback holds of every type that is no array. -/
theorem Language.forall_base {l : Language} {P : LanguageType → Prop}
    (hfamilies : ∀ family, P (l.ofFamily family)) (hfallback : P l.fallback) :
    ∀ family : Option SqlType.Family, P ((family.map l.ofFamily).getD l.fallback)
  | none => hfallback
  | some family => hfamilies family

/-- What holds of the characters of the types of all families, and of those of an array if it does of those of
its elements, holds of the characters of every type. -/
theorem Language.forall_mem_resolve {l : Language} {P : Char → Prop}
    (hfamilies : ∀ family, ∀ x ∈ (l.ofFamily family).name.toList, P x)
    (hfallback : ∀ x ∈ l.fallback.name.toList, P x)
    (harray : ∀ element : String, (∀ x ∈ element.toList, P x) → ∀ x ∈ (l.array element).toList, P x)
    (c : Column) : ∀ x ∈ (l.resolve c).text.toList, P x := by
  have hbase := Language.forall_base (P := fun type => ∀ x ∈ type.name.toList, P x) hfamilies hfallback
  have hdimensions (n : Nat) (element : String) (h : ∀ x ∈ element.toList, P x) :
      ∀ x ∈ (l.arrayOf n element).toList, P x := by
    induction n with
    | zero => exact h
    | succ n ih => exact harray _ ih
  exact hdimensions _ _ (hbase _)

/-- A character of types: a letter, or a bracket around the type of elements. -/
def isTypeNameChar (c : Char) : Bool := c.isAlpha || c == '[' || c == ']' || c == '<' || c == '>'

theorem isTypeNameChar_append {b : String} : (∀ c ∈ (a ++ b).toList, isTypeNameChar c) ↔
    (∀ c ∈ a.toList, isTypeNameChar c) ∧ ∀ c ∈ b.toList, isTypeNameChar c := by
  rw [String.toList_append, List.forall_mem_append]

theorem not_mem_of_isTypeNameChar {x : Char} (h : ∀ c ∈ a.toList, isTypeNameChar c)
    (hx : isTypeNameChar x = false) : x ∉ a.toList := fun hmem => by
  rw [h x hmem] at hx
  exact absurd hx (by decide)

end Schemata.Entity
