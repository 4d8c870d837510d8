import Schemata.Proofs.Naming.LetterCase

/-! # Words of identifiers

The words of an identifier are made of its letters and digits, in order (`flatten_pieces`), and none of them
is empty.  So the first word starts with the first letter or digit (`pieces_cases`). -/

namespace Schemata.Naming

open Schemata.Text

variable {c : Char} {cs piece : List Char} {s w : String}

/-- **The pieces of an identifier** are its letters and digits. -/
theorem flatten_pieces (cs : List Char) : (pieces cs).flatten = cs.filter isAlphanumeric := by
  fun_induction pieces cs with
  | case1 => rfl
  | case2 c hc => simp [hc]
  | case3 c hc => simp [hc]
  | case4 c d r hc ih =>
      have hno : ¬isAlphanumeric c := by simpa using hc
      rw [ih, List.filter_cons_of_neg hno]
  | case5 c d r hc hd ih =>
      have hyes : isAlphanumeric c := by simpa using hc
      rw [List.flatten_cons, ih, List.filter_cons_of_pos hyes]
      rfl
  | case6 c d r hc hd hnil ih =>
      have hyes : isAlphanumeric c := by simpa using hc
      rw [List.filter_cons_of_pos hyes, ← ih, hnil]
      rfl
  | case7 c d r hc hd piece rest hcons ih =>
      have hyes : isAlphanumeric c := by simpa using hc
      rw [List.filter_cons_of_pos hyes, ← ih, hcons]
      rfl

theorem ne_nil_of_mem_pieces (h : piece ∈ pieces cs) : piece ≠ [] := by
  fun_induction pieces cs with
  | case1 => simp at h
  | case2 c hc =>
      obtain rfl := List.mem_singleton.1 h
      simp
  | case3 => simp at h
  | case4 c d r hc ih => exact ih h
  | case5 c d r hc hd ih =>
      rcases List.mem_cons.1 h with rfl | h
      · simp
      · exact ih h
  | case6 c d r hc hd hnil ih =>
      obtain rfl := List.mem_singleton.1 h
      simp
  | case7 c d r hc hd piece' rest hcons ih =>
      rcases List.mem_cons.1 h with rfl | h
      · simp
      · exact ih (hcons ▸ List.mem_cons_of_mem _ h)

theorem mem_pieces_iff : (∃ piece ∈ pieces cs, c ∈ piece) ↔ c ∈ cs ∧ isAlphanumeric c := by
  rw [← List.mem_flatten, flatten_pieces, List.mem_filter]

/-- The first piece starts with the first letter or digit. -/
theorem pieces_cases (cs : List Char) :
    pieces cs = [] ∧ cs.find? isAlphanumeric = none ∨
      ∃ c p rest, pieces cs = (c :: p) :: rest ∧ cs.find? isAlphanumeric = some c := by
  rw [← List.head?_filter, ← flatten_pieces]
  rcases hpieces : pieces cs with _ | ⟨piece, rest⟩
  · exact .inl ⟨rfl, rfl⟩
  · rcases piece with _ | ⟨c, p⟩
    · exact absurd rfl (ne_nil_of_mem_pieces (hpieces ▸ List.mem_cons_self ..))
    · exact .inr ⟨c, p, rest, rfl, rfl⟩

/-! ### Words -/

/-- A word is a piece in lower case. -/
theorem exists_of_mem_words (h : w ∈ words s) :
    ∃ c p, c :: p ∈ pieces s.toList ∧ w.toList = lowerChar c ++ p.flatMap lowerChar := by
  obtain ⟨piece, hpiece, rfl⟩ := List.mem_map.1 h
  rcases piece with _ | ⟨c, p⟩
  · exact absurd rfl (ne_nil_of_mem_pieces hpiece)
  · exact ⟨c, p, hpiece, by rw [String.toList_ofList, List.flatMap_cons]⟩

theorem exists_cons_of_mem_words (h : w ∈ words s) : ∃ c r, w.toList = c :: r ∧ isAlphanumeric c := by
  obtain ⟨c, p, hpiece, hw⟩ := exists_of_mem_words h
  have hc : isAlphanumeric c := (mem_pieces_iff.1 ⟨_, hpiece, List.mem_cons_self ..⟩).2
  obtain ⟨d, t, hlower, halnum, -⟩ := exists_head_lowerChar hc
  exact ⟨d, t ++ p.flatMap lowerChar, by rw [hw, hlower, List.cons_append], halnum⟩

/-- The characters of a word are those of the identifier in lower case. -/
theorem exists_of_mem_word (h : w ∈ words s) (hc : c ∈ w.toList) :
    ∃ d ∈ s.toList, isAlphanumeric d ∧ c ∈ lowerChar d := by
  obtain ⟨piece, hpiece, rfl⟩ := List.mem_map.1 h
  rw [String.toList_ofList] at hc
  obtain ⟨d, hd, hc⟩ := List.mem_flatMap.1 hc
  obtain ⟨hmem, halnum⟩ := mem_pieces_iff.1 ⟨piece, hpiece, hd⟩
  exact ⟨d, hmem, halnum, hc⟩

theorem toList_capitalize {r : List Char} (h : w.toList = c :: r) :
    (capitalize w).toList = upperChar c ++ r := by
  rw [capitalize, h, String.toList_ofList]

/-- The name in camel case starts with the first letter or digit in lower case. -/
theorem head?_camelCase (s : String) :
    (camelCase s).toList.head? = (s.toList.find? isAlphanumeric).bind fun c => (lowerChar c).head? := by
  rcases pieces_cases s.toList with ⟨hnil, hfind⟩ | ⟨c, p, rest, hcons, hfind⟩
  · have hwords : words s = [] := by rw [words, hnil, List.map_nil]
    rw [camelCase, hwords, hfind]
    rfl
  · have hc : isAlphanumeric c := List.find?_some hfind
    obtain ⟨d, r, hd, -⟩ := exists_head_lowerChar hc
    rw [camelCase, words, hcons, List.map_cons, hfind]
    simp [String.toList_join, hd]

end Schemata.Naming
