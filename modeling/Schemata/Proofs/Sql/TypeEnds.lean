import Schemata.Proofs.Sql.Parentheses

/-! # Where types end

A type is read from the front of the tokens after a name, and what stands after its end does not change
how it is read.  If the type leaves tokens, more of them may follow (`columnOfType?_extend`).  If it is
read to its end, it ends before every token that goes on no type, and marks of dimensions that follow
are counted with its own (`columnOfType?_append`). -/

namespace Schemata.Sql

open Schemata.Text

variable {rules : Rules} {d : Dialect} {source : List Char} {name : String} {c : Column} {t : Token}
  {ts us r rest more : List Token} {words : List String}

/-! ### What goes on no type -/

/-- Nothing follows, or a token that goes on the words and parameters of no type. -/
def StopsWords (rules : Rules) (ts : List Token) : Prop :=
  ∀ t ∈ ts.head?, t.kind ≠ .lparen ∧ ∀ w, t.word? = some w → rules.endsType w ∨ sameWord w "array"

/-- Nothing follows, or a token that goes on no type. -/
def EndsType (rules : Rules) (ts : List Token) : Prop :=
  ∀ t ∈ ts.head?, t.kind ≠ .lparen ∧ t.kind ≠ .lbracket ∧ ∀ w, t.word? = some w → rules.endsType w

theorem EndsType.stopsWords (h : EndsType rules ts) : StopsWords rules ts :=
  fun t ht => ⟨(h t ht).1, fun w hw => .inl ((h t ht).2.2 w hw)⟩

/-- Nothing follows that marks a dimension. -/
def EndsMarks (ts : List Token) : Prop :=
  ∀ t ∈ ts.head?, t.kind ≠ .lbracket ∧ t.isKeyword "array" = false

/-- Nothing follows, or a word that ends a type. -/
def StartsWithEnd (rules : Rules) (ts : List Token) : Prop :=
  ∀ t ∈ ts.head?, ∃ w, t.word? = some w ∧ rules.endsType w

theorem startsWithEnd_nil : StartsWithEnd rules [] := by
  simp [StartsWithEnd]

theorem kind_of_word? {w : String} (h : t.word? = some w) : t.kind = .word w := by
  unfold Token.word? at h
  split at h
  · rename_i heq
    rw [heq, Option.some.inj h]
  · simp at h

theorem StartsWithEnd.endsType (h : StartsWithEnd rules ts) : EndsType rules ts := by
  intro t ht
  obtain ⟨w, hw, hends⟩ := h t ht
  refine ⟨by simp [kind_of_word? hw], by simp [kind_of_word? hw], fun v hv => ?_⟩
  obtain rfl : w = v := Option.some.inj (hw.symm.trans hv)
  exact hends

/-- The word `ARRAY` goes on a type. -/
theorem not_array_of_endsType {w : String} (h : (rulesOf d).endsType w) : asciiLower w ≠ "array" := by
  have table : ∀ word ∈ constraintWords ++ (rulesOf d).typeEndWords, word ≠ "array" := by
    cases d <;> decide
  simp only [Rules.endsType, Bool.or_eq_true, List.contains_iff_mem, ← List.mem_append] at h
  exact table _ h

/-! ### Words -/

theorem typeWords_eq_nil (h : ∀ t ∈ ts.head?, ∀ w, t.word? = some w → rules.endsType w ∨ sameWord w "array") :
    typeWords rules ts = ([], ts) := by
  cases ts with
  | nil => rfl
  | cons t r =>
      rw [typeWords]
      split
      · rename_i w hw
        rw [if_pos (by simpa using h t rfl w hw)]
      · rfl

theorem StopsWords.typeWords_eq (h : StopsWords rules ts) : typeWords rules ts = ([], ts) :=
  typeWords_eq_nil fun t ht => (h t ht).2

/-- The words of a type are the same if more tokens follow where words of no type go on. -/
theorem typeWords_more (h : (typeWords rules ts).2 ≠ [] ∨ StopsWords rules more) :
    typeWords rules (ts ++ more) = ((typeWords rules ts).1, (typeWords rules ts).2 ++ more) := by
  induction ts with
  | nil =>
      rcases h with h | h
      · exact absurd rfl h
      · exact h.typeWords_eq
  | cons t r ih =>
      rw [List.cons_append, typeWords]
      rw [typeWords] at h ⊢
      split
      · rename_i w hw
        rw [hw] at h
        split
        · rfl
        · rename_i hgoes
          dsimp only at h
          rw [if_neg hgoes] at h
          rw [ih h]
      · rfl

/-! ### Parameters -/

theorem StopsWords.parenGroup?_eq (h : StopsWords rules ts) : parenGroup? ts = none := by
  cases ts with
  | nil => rfl
  | cons t r => exact parenGroup?_of_ne (h t rfl).1

/-- A group that is closed is the same if more tokens follow. -/
theorem parenGroup?_more (hclosed : FrontCloses ts) (h : ts ≠ [] ∨ parenGroup? more = none) :
    parenGroup? (ts ++ more) = (parenGroup? ts).map fun p => (p.1, p.2 ++ more) := by
  cases ts with
  | nil =>
      rcases h with h | h
      · exact absurd rfl h
      · exact h
  | cons t r =>
      by_cases ht : t.kind = .lparen
      · obtain ⟨close, hclose⟩ := Option.isSome_iff_exists.1 (hclosed t r rfl ht)
        obtain ⟨body, u, after, rfl, -, hu, hbody⟩ := closingFrom_one_eq_some.1 hclose
        rw [List.cons_append, List.append_assoc, List.cons_append, parenGroup?_group ht hu hbody,
          parenGroup?_group ht hu hbody]
        rfl
      · rw [List.cons_append, parenGroup?_of_ne ht, parenGroup?_of_ne ht]
        rfl

/-- A group that leaves tokens is closed. -/
theorem frontCloses_of_parenGroup? {group : List Token} (h : parenGroup? ts = some (group, rest))
    (hne : rest ≠ []) : FrontCloses ts := by
  rintro t r rfl ht
  unfold parenGroup? at h
  dsimp only at h
  rw [if_pos ht] at h
  cases hclose : closingFrom 1 r with
  | some close => rfl
  | none =>
      rw [hclose] at h
      obtain ⟨-, rfl⟩ := Prod.mk.inj (Option.some.inj h)
      exact absurd rfl hne

theorem frontCloses_of_none (h : parenGroup? ts = none) : FrontCloses ts := by
  rintro t r rfl ht
  unfold parenGroup? at h
  dsimp only at h
  rw [if_pos ht] at h
  split at h <;> simp at h

/-! ### Types before their dimensions -/

/-- A type up to the marks of its dimensions: a column with its parameters, its words, and what
follows. -/
def typeStem (rules : Rules) (source : List Char) (name : String) :
    List Token → Option (Column × List String × List Token)
  | [] => none
  | t :: r =>
    match t.word? with
    | none => none
    | some first =>
      if startsConstraint first then none
      else
        let (words, r₁) := typeWords rules r
        match parenGroup? r₁ with
        | some (params, r₂) =>
          let (furtherWords, r₃) := typeWords rules r₂
          some (withParameters source params { name, rawType := "" }, first :: words ++ furtherWords, r₃)
        | none => some ({ name, rawType := "" }, first :: words, r₁)

/-- **A type is its stem and the marks of its dimensions.** -/
theorem columnOfType?_stem (rules : Rules) (source : List Char) (name : String) (ts : List Token) :
    columnOfType? rules source name ts = (typeStem rules source name ts).map fun (c, words, r) =>
      ({ c with rawType := typeName words (arrayMarks r).1 }, (arrayMarks r).2) := by
  cases ts with
  | nil => rfl
  | cons t r =>
      rw [columnOfType?, typeStem]
      cases t.word? with
      | none => rfl
      | some first =>
          dsimp only
          split
          · rfl
          · cases parenGroup? (typeWords rules r).2 with
            | none =>
                rw [List.append_nil]
                rfl
            | some p => rfl

theorem typeStem_suffix {c : Column} (h : typeStem rules source name ts = some (c, words, r)) :
    r <:+ ts := by
  unfold typeStem at h
  split at h
  · simp at h
  · rename_i t us
    split at h
    · simp at h
    · split at h
      · simp at h
      · have hwords : (typeWords rules us).2 <:+ t :: us :=
          (typeWords_suffix rules us).trans (List.suffix_cons t us)
        dsimp only at h
        split at h
        · rename_i hgroup
          obtain ⟨-, -, rfl⟩ : _ ∧ _ ∧ _ := by simpa using h
          exact (typeWords_suffix rules _).trans ((parenGroup?_suffix hgroup).trans hwords)
        · obtain ⟨-, -, rfl⟩ : _ ∧ _ ∧ _ := by simpa using h
          exact hwords

/-- The stem of a type is the same if more tokens follow it, or if it is read to its end and more tokens
follow that do not go on it. -/
theorem typeStem_more {c : Column} (h : typeStem rules source name ts = some (c, words, r))
    (hend : r ≠ [] ∨ StopsWords rules more ∧ IsBalanced (ts.map Token.kind)) :
    typeStem rules source name (ts ++ more) = some (c, words, r ++ more) := by
  cases ts with
  | nil => simp [typeStem] at h
  | cons t us =>
      rw [typeStem] at h
      rw [List.cons_append, typeStem]
      cases hword : t.word? with
      | none => simp [hword] at h
      | some first =>
          rw [hword] at h
          dsimp only at h ⊢
          split
          · rename_i hstart
            simp [hstart] at h
          · rename_i hstart
            rw [if_neg hstart] at h
            cases hgroup : parenGroup? (typeWords rules us).2 with
            | none =>
                rw [hgroup] at h
                obtain ⟨rfl, rfl, rfl⟩ : _ ∧ _ ∧ _ := by simpa using h
                have hmore := hend.imp id And.left
                rw [typeWords_more hmore]
                dsimp only
                rw [parenGroup?_more (frontCloses_of_none hgroup) (hmore.imp id StopsWords.parenGroup?_eq), hgroup]
                rfl
            | some p =>
                obtain ⟨params, after⟩ := p
                rw [hgroup] at h
                obtain ⟨rfl, rfl, rfl⟩ : _ ∧ _ ∧ _ := by simpa using h
                have hmore := hend.imp id And.left
                have hne : (typeWords rules us).2 ≠ [] := by
                  rintro he
                  simp [he, parenGroup?] at hgroup
                have hclosed : FrontCloses (typeWords rules us).2 := by
                  rcases hend with hne | ⟨-, hbalanced⟩
                  · refine frontCloses_of_parenGroup? hgroup ?_
                    rintro rfl
                    exact hne rfl
                  · exact frontCloses_of_isBalanced hbalanced
                      ((typeWords_suffix rules us).trans (List.suffix_cons t us))
                rw [typeWords_more (.inl hne)]
                dsimp only
                rw [parenGroup?_more hclosed (.inl hne), hgroup, Option.map_some]
                simp only [typeWords_more hmore, List.cons_append]

/-! ### Dimensions -/

/-- Marks of dimensions that leave tokens are the same if more tokens follow. -/
theorem arrayMarks_extend (more : List Token) (h : (arrayMarks ts).2 ≠ []) :
    arrayMarks (ts ++ more) = ((arrayMarks ts).1, (arrayMarks ts).2 ++ more) := by
  fun_induction arrayMarks ts with
  | case1 => exact absurd rfl h
  | case2 t r ht n rest hread ih =>
      rw [hread] at ih
      have hclosed : r.dropWhile (·.kind ≠ .rbracket) ≠ [] := by
        intro hopen
        rw [hopen, List.drop_nil, arrayMarks] at hread
        exact h (Prod.mk.inj hread).2.symm
      rw [List.cons_append, arrayMarks, if_pos ht, List.dropWhile_append, if_neg (by simpa using hclosed),
        List.drop_append_of_le_length (List.length_pos_iff.2 hclosed), ih h]
  | case3 t r ht harray n rest hread ih =>
      rw [hread] at ih
      rw [List.cons_append, arrayMarks, if_neg ht, if_pos harray, ih h]
  | case4 t r ht harray => rw [List.cons_append, arrayMarks, if_neg ht, if_neg harray]

/-- After words and groups that are read to their end, marks of dimensions are counted on. -/
theorem arrayMarks_append (hnil : (arrayMarks ts).2 = []) (h : ∀ t ∈ ts, t.kind ≠ .lbracket) :
    arrayMarks (ts ++ more) = ((arrayMarks ts).1 + (arrayMarks more).1, (arrayMarks more).2) := by
  fun_induction arrayMarks ts with
  | case1 => simp
  | case2 t r ht => exact absurd ht (h t (by simp))
  | case3 t r ht harray n rest hread ih =>
      rw [hread] at ih
      rw [List.cons_append, arrayMarks, if_neg ht, if_pos harray, ih hnil fun u hu => h u (by simp [hu])]
      simp only [Prod.mk.injEq, and_true]
      omega
  | case4 => simp at hnil

theorem EndsMarks.arrayMarks_eq (h : EndsMarks ts) : arrayMarks ts = (0, ts) := by
  cases ts with
  | nil => rw [arrayMarks]
  | cons t r =>
      obtain ⟨hbracket, hword⟩ := h t rfl
      rw [arrayMarks, if_neg hbracket, if_neg (by simp [hword])]

/-- What goes on no type marks no dimension. -/
theorem EndsType.endsMarks (h : EndsType (rulesOf d) ts) : EndsMarks ts := by
  intro t ht
  obtain ⟨-, hbracket, hword⟩ := h t ht
  refine ⟨hbracket, ?_⟩
  rw [Token.isKeyword, Token.keyword?]
  cases hw : t.word? with
  | none => rfl
  | some w => simpa using not_array_of_endsType (hword w hw)

theorem typeName_add (words : List String) (n m : Nat) :
    typeName words (n + m) = typeName words n ++ String.join (List.replicate m "[]") := by
  rw [typeName, typeName, List.replicate_add, String.append_assoc]
  congr 1
  rw [String.join_append]

/-! ### Types -/

/-- The name of a column does not matter for its type. -/
theorem columnOfType?_named (h : columnOfType? rules source "" ts = some (c, rest)) (name : String) :
    columnOfType? rules source name ts = some ({ c with name }, rest) := by
  have hparams : ∀ params, withParameters source params { name, rawType := "" } =
      { withParameters source params { name := "", rawType := "" } with name } := by
    intro params
    unfold withParameters
    dsimp only
    split <;> rfl
  unfold columnOfType? at h ⊢
  split at h
  · simp at h
  · split at h
    · simp at h
    · split at h
      · simp at h
      · rename_i hword hstart
        dsimp only at h ⊢
        rw [if_neg hstart]
        obtain ⟨rfl, rfl⟩ := Prod.mk.inj (Option.some.inj h)
        split
        · rw [hparams]
        · rfl

/-- **A type that leaves tokens** is the same if more of them follow. -/
theorem columnOfType?_extend (h : columnOfType? rules source name ts = some (c, rest)) (hne : rest ≠ [])
    (more : List Token) : columnOfType? rules source name (ts ++ more) = some (c, rest ++ more) := by
  rw [columnOfType?_stem] at h ⊢
  obtain ⟨⟨c, words, r⟩, hstem, he⟩ := Option.map_eq_some_iff.1 h
  obtain ⟨rfl, rfl⟩ := Prod.mk.inj he
  have hr : r ≠ [] := by
    rintro rfl
    exact hne (by rw [arrayMarks])
  rw [typeStem_more hstem (.inl hr), Option.map_some]
  dsimp only
  rw [arrayMarks_extend more hne]

/-- **A type that is read to its end** ends there whatever follows that goes on no type, and further
marks of dimensions are counted with its own. -/
theorem columnOfType?_append (h : columnOfType? rules source name ts = some (c, []))
    (hbalanced : IsBalanced (ts.map Token.kind)) (hbracket : ∀ t ∈ ts, t.kind ≠ .lbracket)
    (hmore : StopsWords rules more) :
    columnOfType? rules source name (ts ++ more) =
      some ({ c with rawType := c.rawType ++ String.join (List.replicate (arrayMarks more).1 "[]") },
        (arrayMarks more).2) := by
  rw [columnOfType?_stem] at h ⊢
  obtain ⟨⟨c, words, r⟩, hstem, he⟩ := Option.map_eq_some_iff.1 h
  obtain ⟨rfl, hnil⟩ := Prod.mk.inj he
  have hmarks : ∀ t ∈ r, t.kind ≠ .lbracket :=
    fun t ht => hbracket t ((typeStem_suffix hstem).subset ht)
  rw [typeStem_more hstem (.inr ⟨hmore, hbalanced⟩), Option.map_some]
  dsimp only
  rw [arrayMarks_append hnil hmarks, typeName_add]

/-- **A type that is read to its end** ends before a token that goes on no type. -/
theorem columnOfType?_ends (h : columnOfType? (rulesOf d) source name ts = some (c, []))
    (hbalanced : IsBalanced (ts.map Token.kind)) (hbracket : ∀ t ∈ ts, t.kind ≠ .lbracket)
    (hmore : EndsType (rulesOf d) more) :
    columnOfType? (rulesOf d) source name (ts ++ more) = some (c, more) := by
  rw [columnOfType?_append h hbalanced hbracket hmore.stopsWords, hmore.endsMarks.arrayMarks_eq]
  simp

end Schemata.Sql
