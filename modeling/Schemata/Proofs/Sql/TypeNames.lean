import Schemata.Proofs.Sql.Parsed

/-! # Names of types

The canonical name of a type, and the name of its element type, start with the first word of the type
(`isPrefix_canonical`, `isPrefix_element`), and a type without array dimensions is its own element type
(`element_eq_self`). -/

namespace Schemata.Text

/-- Blanks are no letters. -/
theorem toLower_of_isBlank {c : Char} (h : isBlank c) : c.toLower = c := by
  refine toLower_of_not_isUpper ?_
  rw [← Bool.not_eq_true, isUpper_iff_toNat]
  simp only [isBlank, Bool.or_eq_true, Bool.and_eq_true, decide_eq_true_eq, beq_iff_eq] at h
  omega

theorem blankSeparated_append {w : List Char} (hne : w ≠ []) (hw : ∀ c ∈ w, isBlank c = false)
    (r : List Char) : ∃ x rest, blankSeparated (w ++ r) = (w ++ x) :: rest := by
  induction w with
  | nil => exact absurd rfl hne
  | cons c w ih =>
      have hc : isBlank c = false := hw c (by simp)
      cases w with
      | nil =>
          cases r with
          | nil => exact ⟨[], [], by simp [blankSeparated, hc]⟩
          | cons d r =>
              rw [List.singleton_append, blankSeparated]
              simp only [hc, Bool.false_eq_true, if_false]
              split
              · exact ⟨[], _, rfl⟩
              · split
                · exact ⟨[], [], rfl⟩
                · exact ⟨_, _, rfl⟩
      | cons d w =>
          obtain ⟨x, rest, hrest⟩ := ih (by simp) fun e he => hw e (by simp [he])
          have hd : isBlank d = false := hw d (by simp)
          rw [List.cons_append] at hrest
          refine ⟨x, rest, ?_⟩
          rw [List.cons_append, List.cons_append, blankSeparated]
          simp [hc, hd, hrest]

end Schemata.Text

namespace Schemata.SqlType

open Schemata.Text

/-! ### First words -/

/-- The words of a type name start as the name does, in lower case. -/
theorem isPrefix_canonical {w : String} (hne : w ≠ "") (hw : ∀ c ∈ w.toList, isBlank c = false)
    (hsynonyms : ∀ e ∈ synonyms, ¬(asciiLower w).toList <+: e.1.toList) (tail : String) :
    (asciiLower w).toList <+: (canonical (w ++ tail)).toList := by
  obtain ⟨collapsed, hcollapsed, hcanonical⟩ := canonical_cases (w ++ tail)
  have hstart : (asciiLower w).toList <+: collapsed.toList := by
    obtain ⟨x, rest, hwords⟩ := blankSeparated_append (by simpa using hne) hw tail.toList
    rw [hcollapsed, asciiLower, asciiLower, String.toList_ofList, String.toList_ofList,
      toList_intercalate_ofList, String.toList_append, hwords]
    refine List.IsPrefix.map _ ?_
    cases rest with
    | nil => simp
    | cons v rest => simp [List.intercalate_cons_cons]
  rcases hcanonical with ⟨short, hmem, -⟩ | hname
  · exact absurd hstart (hsynonyms _ hmem)
  · rwa [hname]

/-! ### Element types -/

theorem stripArrayMarks_of_tight {cs : List Char} (h : ∀ c ∈ cs.head?, isBlank c = false)
    (hdim : (stripArrayMarks cs).2 = 0) : (stripArrayMarks cs).1 = cs := by
  fun_cases stripArrayMarks cs with
  | case1 => rfl
  | case2 r element dimensions hr =>
      have hstep : (stripArrayMarks (']' :: '[' :: r)).2 = (stripArrayMarks r).2 + 1 := rfl
      omega
  | case3 c r hmarks hblank => simp [h c rfl] at hblank
  | case4 c r hmarks hblank => rfl

/-- A type without array dimensions is its own element type. -/
theorem element_eq_self {raw : String} (h : EndsTight raw.toList) (hdim : dimensions raw = 0) :
    element raw = raw := by
  have hhead : ∀ c ∈ raw.toList.reverse.head?, isBlank c = false := by
    rw [List.head?_reverse]
    exact h
  have := stripArrayMarks_of_tight hhead hdim
  show String.ofList (stripArrayMarks raw.toList.reverse).1.reverse = raw
  rw [this, List.reverse_reverse, String.ofList_toList]

/-- Only brackets and blanks are taken off the end of a type name. -/
theorem exists_stripArrayMarks (cs : List Char) :
    ∃ marks, cs = marks ++ (stripArrayMarks cs).1 ∧
      ∀ c ∈ marks, c = '[' ∨ c = ']' ∨ isBlank c := by
  fun_induction stripArrayMarks cs with
  | case1 => exact ⟨[], rfl, by simp⟩
  | case2 r element dimensions hstrip ih =>
      obtain ⟨marks, hmarks, hall⟩ := ih
      rw [hstrip] at hmarks
      refine ⟨']' :: '[' :: marks, congrArg (']' :: '[' :: ·) hmarks, ?_⟩
      simpa using hall
  | case3 c r _ hc ih =>
      obtain ⟨marks, hmarks, hall⟩ := ih
      exact ⟨c :: marks, congrArg (c :: ·) hmarks, List.forall_mem_cons.2 ⟨.inr (.inr hc), hall⟩⟩
  | case4 => exact ⟨[], rfl, by simp⟩

/-- The name of an element type starts as the type name does. -/
theorem isPrefix_element {w : List Char} {name : String}
    (hw : ∀ c ∈ w, c ≠ '[' ∧ c ≠ ']' ∧ isBlank c = false) (h : w <+: name.toList) :
    w <+: (element name).toList := by
  obtain ⟨marks, hmarks, hall⟩ := exists_stripArrayMarks name.toList.reverse
  have hname : name.toList = (element name).toList ++ marks.reverse := by
    have hreverse := congrArg List.reverse hmarks
    rw [List.reverse_reverse, List.reverse_append] at hreverse
    simpa [element, splitArray] using hreverse
  rw [hname] at h
  rcases List.prefix_or_prefix_of_prefix h (List.prefix_append _ _) with hw' | ⟨x, hx⟩
  · exact hw'
  · -- the word would go on where the marks start
    cases x with
    | nil => exact ⟨[], by simpa using hx.symm⟩
    | cons c x =>
        rw [← hx] at h
        have hgoes := (List.prefix_append_right_inj _).1 h
        have hmem : c ∈ marks := List.mem_reverse.1 (hgoes.subset (by simp))
        obtain ⟨hopen, hclose, hblank⟩ := hw c (by rw [← hx]; simp)
        rcases hall c hmem with rfl | rfl | hc
        · exact absurd rfl hopen
        · exact absurd rfl hclose
        · simp [hblank] at hc

end Schemata.SqlType
