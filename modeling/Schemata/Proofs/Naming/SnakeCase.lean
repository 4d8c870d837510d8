import Schemata.Entity.Go
import Schemata.Proofs.Naming.Words

/-! # Words in snake case

The words of an identifier have its letters and digits in lower case, each once and in order (`join_words`).
Words without upper-case characters are not split again, so where they are joined by underscores they are
found as they were (`pieces_intercalate`).  In ASCII lower case leaves no upper-case characters, and all ways of
writing an identifier are the same for it and for its snake case (`splits_faithfully`). -/

namespace Schemata.Naming

open Schemata.Text

variable {c : Char} {r w : List Char} {ws : List (List Char)} {s : String}

/-! ### Words and characters -/

/-- **The words of an identifier** are its letters and digits in lower case. -/
theorem join_words (s : String) :
    String.join (words s) = String.ofList ((s.toList.filter isAlphanumeric).flatMap lowerChar) := by
  rw [← flatten_pieces, ← String.toList_inj, String.toList_ofList, String.toList_join, words]
  generalize pieces s.toList = ps
  induction ps with
  | nil => rfl
  | cons p ps ih => simpa using ih

/-! ### Words that are settled -/

/-- A letter or digit that lower case leaves as it is, and that starts no word after another one. -/
structure IsSettled (c : Char) : Prop where
  alphanumeric : isAlphanumeric c
  small : isUppercase c = false
  lower : lowerChar c = [c]

theorem flatMap_lowerChar (h : ∀ c ∈ w, IsSettled c) : w.flatMap lowerChar = w := by
  rw [List.flatMap_congr fun c hc => (h c hc).lower, List.flatMap_singleton']

theorem pieces_separator (h : isAlphanumeric c = false) (r : List Char) : pieces (c :: r) = pieces r := by
  cases r <;> simp [pieces, h]

/-- A settled word before a separator is a piece. -/
theorem pieces_append (hw : w ≠ []) (h : ∀ c ∈ w, IsSettled c)
    (hr : ∀ c ∈ r.head?, isAlphanumeric c = false) : pieces (w ++ r) = w :: pieces r := by
  induction w with
  | nil => exact absurd rfl hw
  | cons c w ih =>
      rw [List.forall_mem_cons] at h
      obtain ⟨hc, hw⟩ := h
      cases w with
      | nil =>
          cases r with
          | nil => simp [pieces, hc.alphanumeric]
          | cons d r => simp [pieces, hc.alphanumeric, hr d rfl]
      | cons d w =>
          have hd : IsSettled d := hw d (List.mem_cons_self ..)
          have hrest := ih (List.cons_ne_nil _ _) hw
          rw [List.cons_append] at hrest ⊢
          rw [List.cons_append, pieces, hrest]
          simp [hc.alphanumeric, hd.alphanumeric, startsWord, hd.small]

/-- **Settled words** that underscores join are found as they were. -/
theorem pieces_intercalate (h : ∀ w ∈ ws, w ≠ [] ∧ ∀ c ∈ w, IsSettled c) :
    pieces (['_'].intercalate ws) = ws := by
  have hmark : isAlphanumeric '_' = false := by decide
  induction ws with
  | nil => rfl
  | cons w ws ih =>
      obtain ⟨⟨hne, hw⟩, hws⟩ := List.forall_mem_cons.1 h
      cases ws with
      | nil =>
          rw [List.intercalate_singleton, ← List.append_nil w, pieces_append hne hw (by simp), List.append_nil]
          rfl
      | cons v ws =>
          rw [List.intercalate_cons_cons, List.append_assoc, pieces_append hne hw (by simp [hmark]),
            List.singleton_append, pieces_separator hmark, ih hws]

/-! ### Snake case -/

theorem toList_snakeCase (s : String) :
    (snakeCase s).toList = ['_'].intercalate ((words s).map String.toList) :=
  String.toList_intercalate

/-- **The words in snake case** are the same if lower case settles the characters. -/
theorem words_snakeCase (h : ∀ c ∈ s.toList, isAlphanumeric c → ∀ d ∈ lowerChar c, IsSettled d) :
    words (snakeCase s) = words s := by
  have hsettled : ∀ w ∈ words s, ∀ c ∈ w.toList, IsSettled c := by
    intro w hw d hd
    obtain ⟨c, hc, halnum, hd⟩ := exists_of_mem_word hw hd
    exact h c hc halnum d hd
  have hpieces : pieces (snakeCase s).toList = (words s).map String.toList := by
    rw [toList_snakeCase]
    refine pieces_intercalate (List.forall_mem_map.2 fun w hw => ⟨?_, hsettled w hw⟩)
    obtain ⟨c, r, hcons, -⟩ := exists_cons_of_mem_words hw
    rw [hcons]
    exact List.cons_ne_nil c r
  rw [words, hpieces, List.map_map]
  conv_rhs => rw [← List.map_id (words s)]
  refine List.map_congr_left fun w hw => ?_
  rw [Function.comp, flatMap_lowerChar (hsettled w hw), String.ofList_toList, id]

/-- Every character is one of ASCII. -/
def IsAscii (s : String) : Prop := ∀ c ∈ s.toList, c.toNat < 0x80

theorem isSettled_of_ascii (hc : c.toNat < 0x80) (h : isAlphanumeric c) : ∀ d ∈ lowerChar c, IsSettled d := by
  have hall : ∀ n < 0x80, isAlphanumeric (Char.ofNat n) → ∀ d ∈ lowerChar (Char.ofNat n),
      isAlphanumeric d ∧ isUppercase d = false ∧ lowerChar d = [d] := by
    decide +kernel
  intro d hd
  rw [← Char.ofNat_toNat c] at h hd
  obtain ⟨halnum, hsmall, hlower⟩ := hall c.toNat hc h d hd
  exact ⟨halnum, hsmall, hlower⟩

/-! ### Ways of writing an identifier -/

/-- Two identifiers of the same words, which are written alike in every case convention. -/
structure SameWords (s t : String) : Prop where
  words : words s = words t
  snake : snakeCase s = snakeCase t
  camel : camelCase s = camelCase t
  pascal : pascalCase s = pascalCase t
  exported : Entity.Go.exportedName s = Entity.Go.exportedName t

theorem sameWords_of_words {t : String} (h : words s = words t) : SameWords s t := by
  constructor
  · exact h
  · rw [snakeCase, h, snakeCase]
  · rw [camelCase, h, camelCase]
  · rw [pascalCase, h, pascalCase]
  · rw [Entity.Go.exportedName, h, Entity.Go.exportedName]

/-- How an identifier is split into words. -/
structure SplitsFaithfully (s : String) : Prop where
  filled : ∀ w ∈ words s, w ≠ ""
  /-- Nothing but the characters between words is lost, and nothing is doubled. -/
  complete : String.join (words s) = String.ofList ((s.toList.filter isAlphanumeric).flatMap lowerChar)
  /-- In ASCII the snake case is a normal form: it has the same words. -/
  normal : IsAscii s → SameWords (snakeCase s) s

/-- **Identifiers are split faithfully**, and in ASCII no case convention tells one from its snake case. -/
theorem splits_faithfully (s : String) : SplitsFaithfully s := by
  constructor
  case filled =>
    rintro w hw rfl
    obtain ⟨c, r, hcons, -⟩ := exists_cons_of_mem_words hw
    simp at hcons
  case complete => exact join_words s
  case normal =>
    exact fun hascii => sameWords_of_words (words_snakeCase fun c hc => isSettled_of_ascii (hascii c hc))

end Schemata.Naming
