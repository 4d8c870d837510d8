import Schemata.Entity.Python
import Schemata.Proofs.Entity.OneLine

/-! # Comments in Python

The comment of a table becomes a documentation string.  It is read back up to the quotes at its end that are
not one of three, which come after the string (`readLong_docText`), and line ends are read as line feeds.
The comment of a column ends a line, and so do the carriage returns in it that no line feed follows
(`endsLine_withComment`).  `comments_read` says for which comments nothing is lost. -/

namespace Schemata.Entity.Python

open Schemata.Text

variable {cs r rest : List Char} {s : String}

/-! ### Strings of Python -/

/-- Line ends as they are read: a carriage return before a line feed belongs to it, and any other is a
line feed. -/
def universalNewlines : List Char → List Char
  | [] => []
  | c :: r =>
    if c = '\r' then
      if r.head? = some '\n' then universalNewlines r else '\n' :: universalNewlines r
    else c :: universalNewlines r

/-- What other escapes stand for: the value of a backslash before these characters, and the number of them
that belong to it. -/
abbrev Escapes : Type := List Char → Option (List Char × Nat)

/-- Reads a string up to three quotes: its value and what follows it.  No null character can stand in it. -/
def readLong (other : Escapes) (cs : List Char) : Option (List Char × List Char) :=
  match cs with
  | [] => none
  | '"' :: '"' :: '"' :: r => some ([], r)
  | '\\' :: c :: r =>
    if c = '\\' ∨ c = '"' then (readLong other r).map (Prod.map (c :: ·) id)
    else
      match other (c :: r) with
      | some (value, n) => (readLong other ((c :: r).drop n)).map (Prod.map (value ++ ·) id)
      | none => none
  | c :: r => if c = '\x00' then none else (readLong other r).map (Prod.map (c :: ·) id)
termination_by cs.length
decreasing_by
  all_goals simp only [List.length_cons, List.length_drop]
  all_goals omega

/-- Reads a string that three quotes enclose. -/
def readDocstring (other : Escapes) : List Char → Option (List Char × List Char)
  | '"' :: '"' :: '"' :: r => readLong other r
  | _ => none

/-! ### Texts between the quotes -/

/-- A text with its backslashes, and its quotes by threes, after backslashes. -/
def docText : List Char → List Char
  | [] => []
  | '"' :: '"' :: '"' :: r => '\\' :: '"' :: '\\' :: '"' :: '\\' :: '"' :: docText r
  | '\\' :: r => '\\' :: '\\' :: docText r
  | c :: r => c :: docText r

/-- A backslash as two, any other character as itself. -/
def slashed (c : Char) : List Char := if c = '\\' then ['\\', '\\'] else [c]

/-- Quotes at the start of a text were there before it was rewritten, if one quote was. -/
theorem quotes_of_rewritten {f : List Char → List Char}
    (hf : ∀ cs t, f cs = '"' :: t → ∃ r, cs = '"' :: r ∧ t = f r) {n : Nat}
    (h : List.replicate n '"' <+: f cs) : List.replicate n '"' <+: cs := by
  induction n generalizing cs with
  | zero => exact List.nil_prefix
  | succ n ih =>
      obtain ⟨t, ht⟩ := h
      obtain ⟨r, rfl, hr⟩ := hf cs _ ht.symm
      exact List.cons_prefix_cons.2 ⟨rfl, ih ⟨t, hr⟩⟩

theorem quote_of_slashed (cs t : List Char) (h : cs.flatMap slashed = '"' :: t) :
    ∃ r, cs = '"' :: r ∧ t = r.flatMap slashed := by
  cases cs with
  | nil => simp at h
  | cons c r =>
      rw [List.flatMap_cons, slashed] at h
      split at h
      · simp at h
      · obtain ⟨rfl, rfl⟩ := List.cons.inj h
        exact ⟨r, rfl, rfl⟩

theorem replaceAll_slashed (cs : List Char) :
    replaceAll ['"', '"', '"'] ['\\', '"', '\\', '"', '\\', '"'] (cs.flatMap slashed) = docText cs := by
  fun_induction docText cs with
  | case1 => rw [List.flatMap_nil, replaceAll]
  | case2 r ih =>
      have hquotes : ('"' :: '"' :: '"' :: r).flatMap slashed = '"' :: '"' :: '"' :: r.flatMap slashed := rfl
      rw [hquotes, replaceAll, if_pos (by simp)]
      simp [ih]
  | case3 r ih =>
      have hslash : ('\\' :: r).flatMap slashed = '\\' :: '\\' :: r.flatMap slashed := rfl
      rw [hslash, replaceAll, if_neg (by simp), replaceAll, if_neg (by simp), ih]
  | case4 c r htriple hslash ih =>
      have hc : (c :: r).flatMap slashed = c :: r.flatMap slashed := by
        rw [List.flatMap_cons, slashed, if_neg hslash]
        rfl
      have hno : ¬['"', '"', '"'] <+: (c :: r).flatMap slashed := by
        intro hprefix
        obtain ⟨t, ht⟩ := quotes_of_rewritten quote_of_slashed (n := 3) hprefix
        obtain ⟨rfl, rfl⟩ := List.cons.inj ht
        exact htriple t rfl rfl
      rw [hc] at hno
      rw [hc, replaceAll, if_neg (by simpa using hno), ih]

theorem toList_docstringText (s : String) : (docstringText s).toList = docText s.toList := by
  have hquotes : "\"\"\"".toList = ['"', '"', '"'] := rfl
  have hnew : "\\\"\\\"\\\"".toList = ['\\', '"', '\\', '"', '\\', '"'] := rfl
  simp only [docstringText, replaceText, replaceChar, hquotes, hnew]
  rw [String.toList_ofList, String.toList_ofList]
  exact replaceAll_slashed s.toList

/-! ### Quotes at the end -/

/-- The number of quotes at the end of a text. -/
def trailingQuotes (cs : List Char) : Nat := (cs.reverse.takeWhile (· = '"')).length

theorem trailingQuotes_append (a r : List Char) :
    trailingQuotes (a ++ r) =
      if trailingQuotes r = r.length then r.length + trailingQuotes a else trailingQuotes r := by
  unfold trailingQuotes
  rw [List.reverse_append, List.takeWhile_append, List.length_reverse]
  split <;> simp

theorem trailingQuotes_le (cs : List Char) : trailingQuotes cs ≤ cs.length := by
  have := (List.takeWhile_sublist (fun c : Char => decide (c = '"')) (l := cs.reverse)).length_le
  rwa [List.length_reverse] at this

/-- The number of quotes at the end that are not one of three. -/
def danglingQuotes (cs : List Char) : Nat := trailingQuotes cs % 3

theorem danglingQuotes_le (cs : List Char) : danglingQuotes cs ≤ cs.length :=
  Nat.le_trans (Nat.mod_le _ _) (trailingQuotes_le cs)

/-- Three quotes at the start do not matter. -/
theorem danglingQuotes_triple (r : List Char) :
    danglingQuotes ('"' :: '"' :: '"' :: r) = danglingQuotes r := by
  have htriple : trailingQuotes ['"', '"', '"'] = 3 := rfl
  have happend := trailingQuotes_append ['"', '"', '"'] r
  rw [htriple] at happend
  unfold danglingQuotes
  rw [show '"' :: '"' :: '"' :: r = ['"', '"', '"'] ++ r from rfl, happend]
  split <;> omega

/-- A character at the start does not matter if a character there is no quote. -/
theorem danglingQuotes_cons {c d : Char} (hd : d ≠ '"') (hmem : d ∈ c :: r) :
    danglingQuotes (c :: r) = danglingQuotes r := by
  have happend := trailingQuotes_append [c] r
  have hcons : danglingQuotes (c :: r) = trailingQuotes ([c] ++ r) % 3 := rfl
  rw [hcons, happend]
  split
  · -- all that follows are quotes, so the first one is none
    rename_i hquotes
    have hall := (List.takeWhile_prefix (fun c : Char => decide (c = '"')) (l := r.reverse)).eq_of_length
      (by rw [List.length_reverse]; exact hquotes)
    have hc : c ≠ '"' := by
      rintro rfl
      have hr : d ∈ r.reverse.takeWhile (· = '"') := by
        rw [hall, List.mem_reverse]
        simpa [hd] using hmem
      exact hd (by simpa using List.all_eq_true.1 List.all_takeWhile d hr)
    have hone : trailingQuotes [c] = 0 := by simp [trailingQuotes, hc]
    rw [hone, Nat.add_zero, ← hquotes, danglingQuotes]
  · rfl

/-! ### Reading texts back -/

/-- A character that starts no escape and no closing quotes stands for itself. -/
theorem readLong_char {other : Escapes} {c : Char} (hslash : c ≠ '\\') (hnull : c ≠ '\x00')
    (hclose : ¬['"', '"', '"'] <+: c :: r) :
    readLong other (c :: r) = (readLong other r).map (Prod.map (c :: ·) id) := by
  rw [readLong]
  · rw [if_neg hnull]
  · rintro t rfl rfl
    exact hclose ⟨t, rfl⟩
  · rintro d t rfl
    exact absurd rfl hslash

theorem readLong_escaped {other : Escapes} {c : Char} (hc : c = '\\' ∨ c = '"') (r : List Char) :
    readLong other ('\\' :: c :: r) = (readLong other r).map (Prod.map (c :: ·) id) := by
  rw [readLong, if_pos hc]

/-- What is read of a text between quotes: all of it but the dangling quotes, which come after the string. -/
def docReading (cs rest : List Char) : Option (List Char × List Char) :=
  if '\x00' ∈ cs then none
  else some (cs.take (cs.length - danglingQuotes cs), List.replicate (danglingQuotes cs) '"' ++ rest)

/-- Characters that do not matter for the dangling quotes are read as they are. -/
theorem docReading_append {a : List Char} (hnull : '\x00' ∉ a)
    (hd : danglingQuotes (a ++ r) = danglingQuotes r) (rest : List Char) :
    docReading (a ++ r) rest = (docReading r rest).map (Prod.map (a ++ ·) id) := by
  have hlength : (a ++ r).length - danglingQuotes r = a.length + (r.length - danglingQuotes r) := by
    have := danglingQuotes_le r
    rw [List.length_append]
    omega
  unfold docReading
  rw [hd, hlength, List.take_length_add_append]
  by_cases hr : '\x00' ∈ r <;> simp [hr, hnull]

/-- The first character of a text that is no quote comes first. -/
theorem docText_cons {c : Char} (hc : c ≠ '"') (r : List Char) : ∃ t, docText (c :: r) = c :: t := by
  by_cases hslash : c = '\\'
  · rw [hslash]
    exact ⟨_, rfl⟩
  · refine ⟨docText r, ?_⟩
    rw [docText]
    · rintro t rfl
      exact absurd rfl hc
    · exact hslash

/-- The quotes that close a string do not start before its last character that is no quote. -/
theorem not_closing_docText {c d : Char} (htriple : ¬['"', '"', '"'] <+: c :: r) (hd : d ≠ '"')
    (hmem : d ∈ c :: r) (rest : List Char) : ¬['"', '"', '"'] <+: c :: (docText r ++ rest) := by
  intro hprefix
  obtain ⟨rfl, hprefix⟩ := List.cons_prefix_cons.1 hprefix
  rcases r with _ | ⟨e, r⟩
  · simp [hd] at hmem
  by_cases he : e = '"'
  · subst he
    rcases r with _ | ⟨f, r⟩
    · simp [hd] at hmem
    have hf : f ≠ '"' := by
      rintro rfl
      exact htriple ⟨r, rfl⟩
    obtain ⟨t, ht⟩ := docText_cons hf r
    rw [docText, ht] at hprefix
    · simp [hf.symm] at hprefix
    · exact fun t _ he => hf (List.cons.inj he).1
    · decide
  · obtain ⟨t, ht⟩ := docText_cons he r
    rw [ht] at hprefix
    simp [Ne.symm he] at hprefix

/-- **A text between quotes is read** up to the quotes that dangle at its end. -/
theorem readLong_docText (other : Escapes) (cs rest : List Char) :
    readLong other (docText cs ++ '"' :: '"' :: '"' :: rest) = docReading cs rest := by
  fun_induction docText cs with
  | case1 => simp [readLong, docReading, danglingQuotes, trailingQuotes]
  | case2 r ih =>
      have hread := docReading_append (a := ['"', '"', '"']) (by decide) (danglingQuotes_triple r) rest
      simp only [List.cons_append, readLong_escaped (.inr rfl), ih]
      refine Eq.trans ?_ hread.symm
      cases docReading r rest <;> rfl
  | case3 r ih =>
      have hread := docReading_append (a := ['\\']) (r := r) (by decide)
        (danglingQuotes_cons (d := '\\') (by decide) (by simp)) rest
      rw [List.cons_append, List.cons_append, readLong_escaped (.inl rfl), ih]
      exact hread.symm
  | case4 c r htriple hslash ih =>
      have hno : ¬['"', '"', '"'] <+: c :: r := by
        rintro ⟨t, ht⟩
        obtain ⟨rfl, rfl⟩ := List.cons.inj ht
        exact htriple t rfl rfl
      by_cases hall : ∀ d ∈ c :: r, d = '"'
      · -- one or two quotes are left, which close the string with the first of the closing ones
        obtain rfl := hall c (by simp)
        rcases r with _ | ⟨d, r⟩
        · simp [docText, readLong, docReading, danglingQuotes, trailingQuotes]
        obtain rfl := hall d (by simp)
        rcases r with _ | ⟨e, r⟩
        · simp [docText, readLong, docReading, danglingQuotes, trailingQuotes]
        obtain rfl := hall e (by simp)
        exact absurd ⟨r, rfl⟩ hno
      · obtain ⟨d, hmem, hd⟩ : ∃ d ∈ c :: r, d ≠ '"' := by
          rw [not_forall] at hall
          obtain ⟨d, hd⟩ := hall
          exact ⟨d, Classical.not_imp.1 hd⟩
        have hclose := not_closing_docText hno hd hmem ('"' :: '"' :: '"' :: rest)
        by_cases hnull : c = '\x00'
        · rw [hnull, List.cons_append, readLong]
          · simp [docReading]
          · simp
          · simp
        · rw [List.cons_append, readLong_char hslash hnull hclose, ih]
          exact (docReading_append (a := [c]) (by simpa using Ne.symm hnull)
            (danglingQuotes_cons hd hmem) rest).symm

/-! ### Line ends -/

theorem universalNewlines_append {a b : List Char} (hb : b.head? ≠ some '\n') :
    universalNewlines (a ++ b) = universalNewlines a ++ universalNewlines b := by
  fun_induction universalNewlines a with
  | case1 => rfl
  | case2 r hr ih =>
      have hhead : (r ++ b).head? = some '\n' := by rw [List.head?_append, hr, Option.some_or]
      rw [List.cons_append, universalNewlines, if_pos rfl, if_pos hhead, ih]
  | case3 r hr ih =>
      have hhead : (r ++ b).head? ≠ some '\n' := by
        cases r with
        | nil => exact hb
        | cons c r => exact hr
      rw [List.cons_append, universalNewlines, if_pos rfl, if_neg hhead, ih, List.cons_append]
  | case4 c r hc ih => rw [List.cons_append, universalNewlines, if_neg hc, ih, List.cons_append]

theorem return_not_mem_universalNewlines (cs : List Char) : '\r' ∉ universalNewlines cs := by
  fun_induction universalNewlines cs with
  | case4 c r hc ih => simp [ih, Ne.symm hc]
  | _ => simp [*]

theorem universalNewlines_eq_self_iff : universalNewlines cs = cs ↔ '\r' ∉ cs := by
  constructor
  · intro h
    rw [← h]
    exact return_not_mem_universalNewlines cs
  · intro h
    fun_induction universalNewlines cs with
    | case1 => rfl
    | case4 c r hc ih => rw [ih fun hmem => h (by simp [hmem])]
    | _ => simp at h

theorem null_mem_universalNewlines : '\x00' ∈ universalNewlines cs ↔ '\x00' ∈ cs := by
  fun_induction universalNewlines cs <;> simp [*]

theorem quote_of_universalNewlines (cs t : List Char) (h : universalNewlines cs = '"' :: t) :
    ∃ r, cs = '"' :: r ∧ t = universalNewlines r := by
  fun_cases universalNewlines cs with
  | case1 => simp [universalNewlines] at h
  | case2 r hr =>
      obtain ⟨r, rfl⟩ := List.head?_eq_some_iff.1 hr
      simp [universalNewlines] at h
  | case3 r hr => simp [universalNewlines, hr] at h
  | case4 c r hc =>
      rw [universalNewlines, if_neg hc] at h
      obtain ⟨rfl, rfl⟩ := List.cons.inj h
      exact ⟨r, rfl, rfl⟩

theorem head?_docText : (docText cs).head? = some '\n' ↔ cs.head? = some '\n' := by
  fun_cases docText cs <;> simp

/-- It does not matter whether line ends are read before backslashes are written or after. -/
theorem universalNewlines_docText (cs : List Char) :
    universalNewlines (docText cs) = docText (universalNewlines cs) := by
  fun_induction docText cs with
  | case1 => rfl
  | case2 r ih => simp [universalNewlines, docText, ih]
  | case3 r ih => simp [universalNewlines, docText, ih]
  | case4 c r htriple hslash ih =>
      by_cases hc : c = '\r'
      · by_cases hr : r.head? = some '\n'
        · rw [universalNewlines, universalNewlines, if_pos hc, if_pos hc, if_pos hr,
            if_pos (head?_docText.2 hr), ih]
        · rw [universalNewlines, universalNewlines, if_pos hc, if_pos hc, if_neg hr,
            if_neg fun h => hr (head?_docText.1 h), ih]
          rfl
      · rw [universalNewlines, universalNewlines, if_neg hc, if_neg hc, ih, docText]
        · rintro t rfl ht
          have hquotes : List.replicate 2 '"' <+: universalNewlines r := ⟨t, ht.symm⟩
          obtain ⟨t', ht'⟩ := quotes_of_rewritten quote_of_universalNewlines hquotes
          exact htriple t' rfl ht'.symm
        · exact hslash

/-! ### Documentation strings -/

/-- A comment as a string that three quotes enclose. -/
def docstring (comment : String) : String := "\"\"\"" ++ docstringText comment ++ "\"\"\""

/-- How the comment of a table is read as a documentation string. -/
structure ReadsDocstring (other : Escapes) (comment : String) : Prop where
  /-- The string stands on a line of its own, before an empty line. -/
  written : ∀ t : Table, t.comment = some comment → classDocstring t = "    " ++ docstring comment ++ "\n\n"
  /-- Dangling quotes of the comment come after the string. -/
  reads : ∀ rest : List Char,
    readDocstring other (universalNewlines ((docstring comment).toList ++ rest)) =
      docReading (universalNewlines comment.toList) (universalNewlines rest)
  /-- The comment is read unchanged, and the string ends at its quotes, exactly if the comment has no
  carriage return, no null character and no dangling quotes. -/
  unchanged : ∀ rest : List Char,
    readDocstring other (universalNewlines ((docstring comment).toList ++ rest)) =
        some (comment.toList, universalNewlines rest) ↔
      '\r' ∉ comment.toList ∧ '\x00' ∉ comment.toList ∧ danglingQuotes comment.toList = 0

theorem toList_docstring (comment : String) (rest : List Char) : (docstring comment).toList ++ rest =
    '"' :: '"' :: '"' :: (docText comment.toList ++ '"' :: '"' :: '"' :: rest) := by
  have hquotes : "\"\"\"".toList = ['"', '"', '"'] := rfl
  rw [docstring, String.toList_append, String.toList_append, toList_docstringText, hquotes]
  simp

theorem readDocstring_docstring (other : Escapes) (comment : String) (rest : List Char) :
    readDocstring other (universalNewlines ((docstring comment).toList ++ rest)) =
      docReading (universalNewlines comment.toList) (universalNewlines rest) := by
  have hquotes : ∀ cs : List Char, universalNewlines ('"' :: '"' :: '"' :: cs) =
      '"' :: '"' :: '"' :: universalNewlines cs := fun cs => by simp [universalNewlines]
  rw [toList_docstring, hquotes, universalNewlines_append (by simp), hquotes, universalNewlines_docText]
  exact readLong_docText other _ _

theorem docReading_eq_iff {comment rest : List Char} :
    docReading (universalNewlines comment) rest = some (comment, rest) ↔
      '\r' ∉ comment ∧ '\x00' ∉ comment ∧ danglingQuotes comment = 0 := by
  unfold docReading
  constructor
  · intro h
    split at h
    · simp at h
    · rename_i hnull
      rw [null_mem_universalNewlines] at hnull
      obtain ⟨htake, hrest⟩ := Prod.mk.inj (Option.some.inj h)
      have hnone : danglingQuotes (universalNewlines comment) = 0 := by simpa using hrest
      rw [hnone, Nat.sub_zero, List.take_length] at htake
      rw [htake] at hnone
      exact ⟨universalNewlines_eq_self_iff.1 htake, hnull, hnone⟩
  · rintro ⟨hreturn, hnull, hnone⟩
    rw [universalNewlines_eq_self_iff.2 hreturn, if_neg hnull, hnone]
    simp

/-! ### Comments at the ends of lines -/

/-- How the comment of a column ends a line. -/
structure EndsLine (comment : String) : Prop where
  /-- The comment is put on one line, after two spaces and the mark. -/
  written : ∀ line, withComment line (some comment) = line ++ "  # " ++ onOneLine comment ++ "\n"
  feed : '\n' ∉ (onOneLine comment).toList
  /-- Only carriage returns before line feeds are taken out. -/
  bare : '\r' ∈ (onOneLine comment).toList ↔ HasBareReturn comment.toList
  /-- The first end of a line in what follows the mark is the one that is written, exactly if there are no
  others. -/
  ends : ∀ rest : List Char,
    ((onOneLine comment).toList ++ '\n' :: rest).takeWhile (fun c => c ≠ '\n' ∧ c ≠ '\r') =
      (onOneLine comment).toList ↔ ¬HasBareReturn comment.toList

theorem endsLine_withComment (comment : String) : EndsLine comment := by
  have hfeed := feed_not_mem_onOneLine comment
  have hbare := return_mem_onOneLine_iff comment
  refine ⟨fun _ => rfl, hfeed, hbare, fun rest => ?_⟩
  rw [← hbare]
  constructor
  · intro he hmem
    rw [← he] at hmem
    simpa using List.all_eq_true.1 List.all_takeWhile _ hmem
  · intro hreturn
    refine Sql.takeWhile_append_of_head (fun c hc => ?_) (by simp)
    have hne : c ≠ '\n' ∧ c ≠ '\r' := ⟨ne_of_mem_of_not_mem hc hfeed, ne_of_mem_of_not_mem hc hreturn⟩
    simpa using hne

/-- **Comments in Python**: the comment of a table is read unchanged unless it has a carriage return, a null
character or dangling quotes, and the comment of a column ends with its line unless it has a carriage return
that no line feed follows. -/
theorem comments_read (other : Escapes) (comment : String) :
    ReadsDocstring other comment ∧ EndsLine comment := by
  refine ⟨⟨fun t ht => ?_, fun rest => readDocstring_docstring other comment rest, fun rest => ?_⟩,
    endsLine_withComment comment⟩
  · have hindent : "    \"\"\"" = "    " ++ "\"\"\"" := rfl
    have hend : "\"\"\"\n\n" = "\"\"\"" ++ "\n\n" := rfl
    rw [classDocstring, ht, Option.map_some, Option.getD_some, hindent, hend, docstring]
    simp only [String.append_assoc]
  · rw [readDocstring_docstring, docReading_eq_iff]

/-- A quote at the end of a comment closes the string before its last quote, and a carriage return ends a
comment before its line. -/
theorem greeting_cut_off :
    (∀ other, readDocstring other (universalNewlines ((docstring "say \"hi\"").toList ++ ['\n'])) =
        some ("say \"hi".toList, ['"', '\n'])) ∧
      ((onOneLine "first\rsecond").toList ++ ['\n']).takeWhile (fun c => c ≠ '\n' ∧ c ≠ '\r') =
        "first".toList :=
  ⟨fun other => by rw [readDocstring_docstring]; decide, by decide⟩

end Schemata.Entity.Python
