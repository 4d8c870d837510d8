import Schemata.Json
import Schemata.Proofs.Sql.Layout

/-! # Names in source texts

A source text mentions a name if the name stands in it as a whole word outside string literals
(`Mentions`).  The names of a text are those of its parts wherever a character that no name can hold stands
between them (`namesIn_append_cons`), and a string literal has no names (`namesIn_stringLiteral`). -/

namespace Schemata.Entity

variable {a b word x : List Char} {c : Char}

/-! ### Words outside literals -/

/-- A character of a name; the parts of a qualified name are joined by points. -/
def isNameChar (c : Char) : Bool := c.isAlphanum || c == '_' || c == '.'

/-- A character that ends a name and starts no literal. -/
def isSeparator (c : Char) : Bool := !isNameChar c && c != '"'

/-- A source text whose string literals are emptied, so that only their quotes are left.  The flag says
whether the text starts inside a literal, where a backslash takes the character after it along. -/
def emptied : Bool → List Char → List Char
  | _, [] => []
  | false, '"' :: r => '"' :: emptied true r
  | false, c :: r => c :: emptied false r
  | true, '\\' :: _ :: r => emptied true r
  | true, '"' :: r => '"' :: emptied false r
  | true, _ :: r => emptied true r

/-- The names in a source text, in order. -/
def namesIn (source : List Char) : List (List Char) :=
  ((emptied false source).splitOnP (!isNameChar ·)).filter (!·.isEmpty)

/-- A source text has a name in it. -/
def Mentions (name source : String) : Prop := name.toList ∈ namesIn source.toList

/-- A text that is one name. -/
def IsWord (word : String) : Prop := word ≠ "" ∧ ∀ c ∈ word.toList, isNameChar c

instance (word : String) : Decidable (IsWord word) := inferInstanceAs (Decidable (_ ∧ _))

instance (name source : String) : Decidable (Mentions name source) :=
  inferInstanceAs (Decidable (_ ∈ _))

/-! ### Closed parts -/

/-- A part of a source text that ends outside literals. -/
def Closed (a : List Char) : Prop := ∀ r, emptied false (a ++ r) = emptied false a ++ emptied false r

theorem emptied_cons (hc : c ≠ '"') (r : List Char) : emptied false (c :: r) = c :: emptied false r := by
  simp [emptied]

/-- Text without quotes stays as it is. -/
theorem emptied_append (ha : '"' ∉ a) (r : List Char) : emptied false (a ++ r) = a ++ emptied false r := by
  induction a with
  | nil => rfl
  | cons c a ih =>
      rw [List.mem_cons, not_or] at ha
      rw [List.cons_append, emptied_cons (Ne.symm ha.1), ih ha.2, List.cons_append]

theorem emptied_eq_self (ha : '"' ∉ a) : emptied false a = a := by
  have happend := emptied_append ha []
  rwa [List.append_nil, emptied, List.append_nil] at happend

theorem closed_of_not_mem (ha : '"' ∉ a) : Closed a := fun r => by
  rw [emptied_append ha, emptied_eq_self ha]

theorem Closed.append (ha : Closed a) (hb : Closed b) : Closed (a ++ b) := fun r => by
  rw [List.append_assoc, ha, hb, ha, List.append_assoc]

theorem hexDigit_plain : ∀ n < 16, Json.hexDigit n ≠ '"' ∧ Json.hexDigit n ≠ '\\' := by
  decide

/-- What stands for a character in a literal does not end the literal. -/
theorem emptied_escapeChar (c : Char) (r : List Char) :
    emptied true (Json.escapeChar c ++ r) = emptied true r := by
  by_cases hcontrol : c.toNat < 0x20
  · have hhigh := hexDigit_plain (c.toNat / 16) (by omega)
    have hlow := hexDigit_plain (c.toNat % 16) (by omega)
    unfold Json.escapeChar
    split_ifs <;> simp [emptied, hhigh, hlow]
  · unfold Json.escapeChar
    split_ifs <;> simp [emptied, *]

theorem emptied_literal (cs r : List Char) :
    emptied true (cs.flatMap Json.escapeChar ++ '"' :: r) = '"' :: emptied false r := by
  induction cs with
  | nil => rfl
  | cons c cs ih => rw [List.flatMap_cons, List.append_assoc, emptied_escapeChar, ih]

theorem emptied_stringLiteral (s : String) (r : List Char) :
    emptied false ((Json.stringLiteral s).toList ++ r) = '"' :: '"' :: emptied false r := by
  have hliteral : (Json.stringLiteral s).toList ++ r =
      '"' :: (s.toList.flatMap Json.escapeChar ++ '"' :: r) := by
    rw [Json.stringLiteral, String.toList_ofList]
    simp
  rw [hliteral, emptied, emptied_literal]

theorem closed_stringLiteral (s : String) : Closed (Json.stringLiteral s).toList := fun r => by
  have hend := emptied_stringLiteral s []
  rw [List.append_nil] at hend
  rw [emptied_stringLiteral, hend]
  rfl

/-! ### Names of parts -/

theorem isSeparator_iff : isSeparator c ↔ isNameChar c = false ∧ c ≠ '"' := by
  simp [isSeparator]

/-- **The names of two parts** with a separator between them. -/
theorem namesIn_append_cons (ha : Closed a) (hc : isSeparator c) (b : List Char) :
    namesIn (a ++ c :: b) = namesIn a ++ namesIn b := by
  obtain ⟨hname, hquote⟩ := isSeparator_iff.1 hc
  rw [namesIn, ha, emptied_cons hquote, List.splitOnP_append_cons _ _ (by simp [hname]), List.filter_append]
  rfl

theorem namesIn_cons (hc : isSeparator c) (b : List Char) : namesIn (c :: b) = namesIn b :=
  namesIn_append_cons (a := []) (fun _ => rfl) hc b

/-- A separator at the end is either inside a literal or a part without names. -/
theorem emptied_append_singleton (hc : c ≠ '"') (inside : Bool) (cs : List Char) :
    emptied inside (cs ++ [c]) = emptied inside cs ∨ emptied inside (cs ++ [c]) = emptied inside cs ++ [c] := by
  fun_induction emptied inside cs with
  | case1 inside => cases inside <;> simp [emptied]
  | case2 r ih => simpa [emptied] using ih
  | case3 d r hd ih => simpa [emptied_cons hd] using ih
  | case4 d r ih => simpa [emptied] using ih
  | case5 r ih => simpa [emptied] using ih
  | case6 d r hslash hd ih =>
      cases r with
      | nil => by_cases hd' : d = '\\' <;> simp [emptied, hd']
      | cons e r =>
          have hd' : d ≠ '\\' := fun he => hslash e r he rfl
          simpa [emptied, hd', hd] using ih

theorem namesIn_append_singleton (hc : isSeparator c) (cs : List Char) : namesIn (cs ++ [c]) = namesIn cs := by
  obtain ⟨hname, hquote⟩ := isSeparator_iff.1 hc
  rcases emptied_append_singleton hquote false cs with h | h
  · rw [namesIn, h, namesIn]
  · rw [namesIn, h, List.splitOnP_append_cons _ _ (by simp [hname]), List.filter_append, namesIn]
    simp

theorem namesIn_stringLiteral (s : String) : namesIn (Json.stringLiteral s).toList = [] := by
  have hend := emptied_stringLiteral s []
  rw [List.append_nil] at hend
  rw [namesIn, hend]
  decide

/-- A word is its only name. -/
theorem namesIn_word (hne : word ≠ []) (hword : ∀ c ∈ word, isNameChar c) : namesIn word = [word] := by
  have hquote : '"' ∉ word := fun hmem => absurd (hword _ hmem) (by decide)
  rw [namesIn, emptied_eq_self hquote, List.splitOnP_eq_singleton fun c hc => by simp [hword c hc]]
  simp [hne]

theorem closed_word (hword : ∀ c ∈ word, isNameChar c) : Closed word :=
  closed_of_not_mem fun hmem => absurd (hword _ hmem) (by decide)

/-- A word before a separator. -/
theorem namesIn_word_cons (hne : word ≠ []) (hword : ∀ c ∈ word, isNameChar c) (hc : isSeparator c)
    (x : List Char) : namesIn (word ++ c :: x) = word :: namesIn x := by
  rw [namesIn_append_cons (closed_word hword) hc, namesIn_word hne hword]
  rfl

/-- A keyword before its value. -/
theorem namesIn_keyword {key : String} (word : String) (hkey : key.toList = word.toList ++ ['='])
    (hword : IsWord word) (value : String) :
    namesIn (key ++ value).toList = word.toList :: namesIn value.toList := by
  rw [String.toList_append, hkey, List.append_assoc, List.singleton_append,
    namesIn_word_cons (by simpa using hword.1) hword.2 (by decide)]

/-- A word applied to what stands between brackets. -/
theorem namesIn_applied {front back : String} (word : String) (opening closing : Char)
    (hfront : front.toList = word.toList ++ [opening]) (hback : back.toList = [closing])
    (hword : IsWord word) (hseparators : isSeparator opening ∧ isSeparator closing)
    (inner : String) : namesIn (front ++ inner ++ back).toList = word.toList :: namesIn inner.toList := by
  rw [String.toList_append, String.toList_append, hfront, hback, List.append_assoc, List.append_assoc,
    List.singleton_append, namesIn_word_cons (by simpa using hword.1) hword.2 hseparators.1,
    namesIn_append_singleton hseparators.2]

/-- **A word applied to a text** is mentioned beside what the text mentions. -/
theorem mentions_applied {name front inner back : String} (word : String) (opening closing : Char)
    (hfront : front.toList = word.toList ++ [opening]) (hback : back.toList = [closing])
    (hword : IsWord word) (hseparators : isSeparator opening ∧ isSeparator closing) :
    Mentions name (front ++ inner ++ back) ↔ name = word ∨ Mentions name inner := by
  rw [Mentions, namesIn_applied word opening closing hfront hback hword hseparators, List.mem_cons,
    String.toList_inj, Mentions]

/-- The names of a list of parts with commas between them. -/
theorem namesIn_intercalate {parts : List String} (h : ∀ part ∈ parts, Closed part.toList) :
    namesIn (", ".intercalate parts).toList = parts.flatMap (namesIn ·.toList) := by
  rw [String.toList_intercalate]
  induction parts with
  | nil => rfl
  | cons part parts ih =>
      cases parts with
      | nil => simp
      | cons next parts =>
          have hpart : ∀ r, part.toList ++ (", ".toList ++ r) = part.toList ++ ',' :: ' ' :: r := fun _ => rfl
          rw [List.map_cons, List.map_cons, List.intercalate_cons_cons, List.append_assoc, hpart,
            namesIn_append_cons (h _ List.mem_cons_self) (by decide), namesIn_cons (by decide), ← List.map_cons,
            ih fun a ha => h a (List.mem_cons_of_mem _ ha)]
          rfl

example : Mentions "time.Time" "[]time.Time" ∧ ¬Mentions "Time" "[]time.Time" ∧
    ¬Mentions "text" "text_of(\"text \\\"text\")" := by decide

end Schemata.Entity
