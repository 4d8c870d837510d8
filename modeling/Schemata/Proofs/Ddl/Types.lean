import Schemata.Proofs.Ddl.Reading
import Schemata.Proofs.Ddl.Defaults

/-! # The tokens of types

A type is written as words, perhaps with numbers in parentheses after them (`TypeKinds`), and is read
to its end before a clause of the column (`columnOfType?_written`). -/

namespace Schemata.Ddl

open Schemata.Sql Schemata.SqlType Schemata.Text

variable {d : Dialect} {ts rest : List Token}

/-! ### Shapes -/

/-- The parameters of a type: nothing, or numbers and commas in parentheses. -/
def ParamKinds (ks : List TokenKind) : Prop :=
  ks = [] ∨ ∃ inner, ks = .lparen :: (inner ++ [.rparen]) ∧
    ∀ k ∈ inner, isNumeralKind k ∨ k = .comma

/-- A word that starts a type, and no constraint in place of a column. -/
def startsType (w : String) : Bool := !(startsConstraint w || sameWord w "using")

/-- A word that goes on a type. -/
def goesOnType (d : Dialect) (w : String) : Bool :=
  !((rulesOf d).endsType w || sameWord w "array")

/-- The kinds of the tokens of the type `raw`. -/
structure TypeKinds (d : Dialect) (raw : String) (ks : List TokenKind) : Prop where
  shape : ∃ w ws params, ks = .word w :: (ws.map TokenKind.word ++ params) ∧
    startsType w ∧ (∀ v ∈ ws, goesOnType d v) ∧ ParamKinds params ∧
    canonical (" ".intercalate (w :: ws)) = raw

/-- The words that start a clause of a column. -/
def clauseWords : Dialect → List String
  | .mysql => ["NOT", "AUTO_INCREMENT", "DEFAULT", "COMMENT"]
  | .postgresql => ["PRIMARY", "NOT", "DEFAULT", "CHECK"]

/-- Nothing follows, or a clause of a column. -/
def StartsClause (d : Dialect) (rest : List Token) : Prop :=
  ∀ t ∈ rest.head?, ∃ w ∈ clauseWords d, t.kind = .word w

theorem startsClause_nil : StartsClause d [] := by
  simp [StartsClause]

/-! ### Reading -/

theorem typeWords_append {ws : List String} (hws : ∀ v ∈ ws, goesOnType d v)
    (h : ts.map Token.kind = ws.map TokenKind.word) :
    typeWords (rulesOf d) (ts ++ rest) =
      (ws ++ (typeWords (rulesOf d) rest).1, (typeWords (rulesOf d) rest).2) := by
  induction ws generalizing ts with
  | nil =>
      obtain rfl : ts = [] := by simpa using h
      rfl
  | cons w ws ih =>
      obtain ⟨t, r, rfl, ht, hr⟩ := List.map_eq_cons_iff.1 h
      have hw : ((rulesOf d).endsType w || sameWord w "array") = false := by
        simpa [goesOnType] using hws w (by simp)
      have hword : t.word? = some w := by simp [Token.word?, ht]
      rw [List.cons_append, typeWords]
      simp only [hword, hw, Bool.false_eq_true, if_false, ih (fun v hv => hws v (by simp [hv])) hr,
        List.cons_append]

/-- A clause ends a type. -/
theorem typeWords_clause (h : StartsClause d rest) : typeWords (rulesOf d) rest = ([], rest) := by
  cases rest with
  | nil => rfl
  | cons t r =>
      obtain ⟨w, hw, ht⟩ := h t rfl
      have hends : ∀ w ∈ clauseWords d, (rulesOf d).endsType w = true := by
        cases d <;> decide
      have hword : t.word? = some w := by simp [Token.word?, ht]
      rw [typeWords]
      simp [hword, hends w hw]

theorem arrayMarks_clause (h : StartsClause d rest) : arrayMarks rest = (0, rest) := by
  cases rest with
  | nil => rw [arrayMarks]
  | cons t r =>
      obtain ⟨w, hw, ht⟩ := h t rfl
      have hne : ∀ w ∈ clauseWords d, (asciiLower w == "array") = false := by
        cases d <;> decide
      have hkey : t.isKeyword "array" = false := by
        rw [isKeyword_eq, ht]
        simpa [TokenKind.keyword?] using hne w hw
      rw [arrayMarks]
      simp [ht, hkey]

theorem parenGroup?_clause (h : StartsClause d rest) : parenGroup? rest = none := by
  cases rest with
  | nil => rfl
  | cons t r =>
      obtain ⟨w, -, ht⟩ := h t rfl
      exact parenGroup?_of_ne (by simp [ht])

theorem balanced_of_numbers {ks : List TokenKind} (h : ∀ k ∈ ks, isNumeralKind k ∨ k = .comma) :
    IsBalanced ks ∧ .semicolon ∉ ks := by
  induction ks with
  | nil => exact ⟨balanced_nil, by simp⟩
  | cons k ks ih =>
      obtain ⟨hb, hs⟩ := ih fun j hj => h j (by simp [hj])
      rcases h k (by simp) with hk | rfl
      · obtain ⟨hplain, hne⟩ := isPlain_of_isNumeralKind hk
        refine ⟨?_, by simp [hs, hne.symm]⟩
        rw [IsBalanced, depthThrough_plain hplain]
        exact hb
      · exact ⟨hb.comma, by simp [hs]⟩

/-- A type stands in one definition. -/
theorem TypeKinds.part {raw : String} {ks : List TokenKind} (h : TypeKinds d raw ks) :
    IsPart ks ∧ .semicolon ∉ ks := by
  obtain ⟨w, ws, params, rfl, -, -, hparams, -⟩ := h.shape
  have hend : IsPart params ∧ .semicolon ∉ params := by
    rcases hparams with rfl | ⟨inner, rfl, hinner⟩
    · exact ⟨part_nil, by simp⟩
    · obtain ⟨hbalanced, hsemicolon⟩ := balanced_of_numbers hinner
      exact ⟨hbalanced.group, by simp [hsemicolon]⟩
  have hwords : IsPart (ws.map TokenKind.word) := by
    rw [List.map_eq_flatMap]
    exact IsPart.flatMap fun v _ => part_nil.cons rfl
  exact ⟨(hwords.append hend.1).cons rfl, by simp [hend.2]⟩

/-- Type parameters only set the parameters of a column. -/
theorem withParameters_shape (source : List Char) (params : List Token) (name raw : String) :
    ∃ length precision members, withParameters source params { name, rawType := raw } =
      { name, rawType := raw, length, precision, members } := by
  unfold withParameters
  dsimp only
  split
  · exact ⟨_, _, _, rfl⟩
  · exact ⟨_, _, _, rfl⟩

theorem startsConstraint_of_startsType {w : String} (h : startsType w) :
    startsConstraint w = false := by
  simp only [startsType, Bool.not_eq_true', Bool.or_eq_false_iff] at h
  exact h.1

/-- A type of words is read up to a clause. -/
theorem columnOfType?_words {t : Token} {words : List Token} {w : String} {ws : List String}
    (ht : t.kind = .word w) (hw : startsType w) (hws : ∀ v ∈ ws, goesOnType d v)
    (hwords : words.map Token.kind = ws.map TokenKind.word) (hrest : StartsClause d rest)
    (source : List Char) (name : String) :
    columnOfType? (rulesOf d) source name (t :: (words ++ rest)) =
      some ({ name, rawType := canonical (" ".intercalate (w :: ws)) }, rest) := by
  have hword : t.word? = some w := by simp [Token.word?, ht]
  rw [columnOfType?]
  simp only [hword, startsConstraint_of_startsType hw, typeWords_append hws hwords,
    typeWords_clause hrest, parenGroup?_clause hrest, arrayMarks_clause hrest]
  simp

/-- A type of words and parameters is read up to a clause. -/
theorem columnOfType?_group {t opening closing : Token} {words body : List Token} {w : String}
    {ws : List String} (ht : t.kind = .word w) (hw : startsType w) (hws : ∀ v ∈ ws, goesOnType d v)
    (hwords : words.map Token.kind = ws.map TokenKind.word) (hopening : opening.kind = .lparen)
    (hclosing : closing.kind = .rparen) (hbody : IsBalanced (body.map Token.kind))
    (hrest : StartsClause d rest) (source : List Char) (name : String) :
    columnOfType? (rulesOf d) source name (t :: (words ++ opening :: (body ++ closing :: rest))) =
      some ({ withParameters source body { name, rawType := "" } with
        rawType := canonical (" ".intercalate (w :: ws)) }, rest) := by
  have hword : t.word? = some w := by simp [Token.word?, ht]
  have hparen : parenGroup? (opening :: (body ++ closing :: rest)) = some (body, rest) :=
    parenGroup?_group hopening hclosing hbody
  have hnone : typeWords (rulesOf d) (opening :: (body ++ closing :: rest)) =
      ([], opening :: (body ++ closing :: rest)) := by
    have : opening.word? = none := by simp [Token.word?, hopening]
    rw [typeWords]
    simp only [this]
  rw [columnOfType?]
  simp only [hword, startsConstraint_of_startsType hw, typeWords_append hws hwords, hnone, hparen,
    typeWords_clause hrest, arrayMarks_clause hrest]
  simp

/-- **A written type is read** to its end. -/
theorem columnOfType?_written {raw : String} (h : TypeKinds d raw (ts.map Token.kind))
    (hrest : StartsClause d rest) (source : List Char) (name : String) :
    ∃ length precision members, columnOfType? (rulesOf d) source name (ts ++ rest) =
      some ({ name, rawType := raw, length, precision, members }, rest) := by
  obtain ⟨w, ws, params, hkinds, hfirst, hws, hparams, rfl⟩ := h.shape
  obtain ⟨t, r, rfl, ht, hr⟩ := List.map_eq_cons_iff.1 hkinds
  obtain ⟨words, group, rfl, hwords, hgroup⟩ := List.map_eq_append_iff.1 hr
  rcases hparams with rfl | ⟨inner, rfl, hinner⟩
  · obtain rfl : group = [] := by simpa using hgroup
    refine ⟨none, none, [], ?_⟩
    rw [List.append_nil, List.cons_append]
    exact columnOfType?_words ht hfirst hws hwords hrest source name
  · obtain ⟨opening, body, closing, rfl, hopening, rfl, hclosing⟩ := exists_group_of_kinds hgroup
    obtain ⟨length, precision, members, hshape⟩ := withParameters_shape source body name ""
    refine ⟨length, precision, members, ?_⟩
    have hsplit : t :: (words ++ opening :: (body ++ [closing])) ++ rest =
        t :: (words ++ opening :: (body ++ closing :: rest)) := by simp
    rw [hsplit, columnOfType?_group ht hfirst hws hwords hopening hclosing
      (balanced_of_numbers hinner).1 hrest, hshape]

/-! ### Texts -/

/-- A text that is a type. -/
def GivesType (d : Dialect) (text raw : String) : Prop :=
  ∃ ks, Gives d text.toList ks ∧ TypeKinds d raw ks

/-- Numbers with commas between them, in parentheses. -/
theorem gives_numbers (texts : List (List Char)) (h : ∀ cs ∈ texts, ∀ ch ∈ cs, isDecimal ch) :
    ∃ ks, Gives d ('(' :: ([','].intercalate texts ++ [')'])) ks ∧ ParamKinds ks := by
  have hlist : ∃ kss, List.Forall₂ (Gives d) texts kss ∧
      ∀ ks ∈ kss, ∀ k ∈ ks, isNumeralKind k := by
    induction texts with
    | nil => exact ⟨[], .nil, by simp⟩
    | cons cs texts ih =>
        obtain ⟨kss, hkss, hall⟩ := ih fun cs hcs => h cs (by simp [hcs])
        obtain ⟨ks, hks, hnum⟩ := wholeKinds?_digits d (h cs (by simp))
        refine ⟨ks :: kss, .cons (gives_of_wholeKinds? hks) hkss, ?_⟩
        intro js hjs
        rcases List.mem_cons.1 hjs with rfl | hjs
        · exact hnum
        · exact hall js hjs
  obtain ⟨kss, hkss, hall⟩ := hlist
  have hinner := gives_intercalate [','] [.comma] (by decide) (by simp)
    (fun ht => ht.punct rfl) hkss
  have hend : Gives d [')'] [.rparen] := Gives.nil.punct rfl
  refine ⟨_, (hinner.append hend (by decide)).punct (c := '(') rfl, .inr ⟨_, rfl, ?_⟩⟩
  clear hkss hinner
  induction kss with
  | nil => simp
  | cons ks kss ih =>
      have hk := hall ks (by simp)
      have hrest := ih fun js hjs => hall js (by simp [hjs])
      cases kss with
      | nil =>
          rw [List.intercalate_singleton]
          exact fun k hmem => .inl (hk k hmem)
      | cons ls kss =>
          rw [List.intercalate_cons_cons]
          intro k hmem
          rcases List.mem_append.1 hmem with hmem | hmem
          · rcases List.mem_append.1 hmem with hmem | hmem
            · exact .inl (hk k hmem)
            · exact .inr (by simpa using hmem)
          · exact hrest k hmem

/-- Whether a text is nothing, or numbers in parentheses. -/
def isNumbers : List Char → Bool
  | [] => true
  | c :: r =>
    c == '(' && r.getLast? == some ')' && (r.dropLast.splitOn ',').all (·.all Char.isDigit)

theorem gives_of_isNumbers {cs : List Char} (h : isNumbers cs) :
    Separated cs ∧ ∃ ks, Gives d cs ks ∧ ParamKinds ks := by
  cases cs with
  | nil => exact ⟨separated_nil, [], .nil, .inl rfl⟩
  | cons c r =>
      simp only [isNumbers, Bool.and_eq_true, beq_iff_eq, List.all_eq_true] at h
      obtain ⟨⟨rfl, hlast⟩, hdigits⟩ := h
      have := gives_numbers (d := d) _ fun cs hcs ch hch =>
        isDecimal_of_isDigit (hdigits cs hcs ch hch)
      rw [List.intercalate_splitOn, List.dropLast_append_getLast? _ hlast] at this
      exact ⟨separated_cons.2 (by decide), this⟩

/-- The type that a text of words is. -/
def writtenName? (d : Dialect) (name : String) : Option String :=
  match name.toList.splitOn ' ' with
  | [] => none
  | w :: ws =>
    if (w :: ws).all isBareWord && startsType (String.ofList w) &&
        ws.all (goesOnType d ∘ String.ofList) then
      some (canonical name)
    else none

/-- A name of words gives these words. -/
theorem gives_writtenName {name raw : String} (h : writtenName? d name = some raw) :
    ∃ w ws, Gives d name.toList (.word w :: ws.map TokenKind.word) ∧ startsType w ∧
      (∀ v ∈ ws, goesOnType d v) ∧ canonical (" ".intercalate (w :: ws)) = raw := by
  have hname : [' '].intercalate (name.toList.splitOn ' ') = name.toList :=
    List.intercalate_splitOn ' '
  unfold writtenName? at h
  split at h
  · simp at h
  · rename_i w ws hsplit
    rw [hsplit] at hname
    simp only [Option.ite_none_right_eq_some, Option.some.injEq, Bool.and_eq_true,
      List.all_eq_true] at h
    obtain ⟨⟨⟨hbare, hstart⟩, hws⟩, rfl⟩ := h
    have hwords : Gives d name.toList ((w :: ws).map fun w => .word (String.ofList w)) := by
      have hall : List.Forall₂ (Gives d) ((w :: ws).map id)
          ((w :: ws).map fun w => [TokenKind.word (String.ofList w)]) :=
        forall₂_map fun w hw => Gives.word d (hbare w hw)
      rw [List.map_id] at hall
      have := gives_intercalate [' '] [] (by decide) (by simp)
        (fun ht => ht.blank (by decide)) hall
      rw [hname, nil_intercalate, ← List.flatMap_def, ← List.map_eq_flatMap] at this
      exact this
    refine ⟨String.ofList w, ws.map String.ofList, by simpa [Function.comp_def] using hwords, hstart, ?_, ?_⟩
    · intro v hv
      obtain ⟨w', hw', rfl⟩ := List.mem_map.1 hv
      exact hws w' hw'
    · congr 1
      apply String.toList_injective
      rw [← List.map_cons, toList_intercalate_ofList]
      exact hname

/-- Parameters can be put after the name of a type. -/
theorem givesType_params (params : String) {name raw : String} {ks : List TokenKind}
    (h : writtenName? d name = some raw) (hgives : Gives d params.toList ks)
    (hsep : Separated params.toList) (hparams : ParamKinds ks) :
    GivesType d (name ++ params) raw := by
  obtain ⟨w, ws, hwords, hstart, hws, hraw⟩ := gives_writtenName h
  have hall : Gives d (name ++ params).toList (.word w :: ws.map TokenKind.word ++ ks) := by
    rw [String.toList_append]
    exact hwords.append hgives hsep
  exact ⟨_, hall, ⟨w, ws, ks, rfl, hstart, hws, hparams, hraw⟩⟩

/-- The type that a text is: words, perhaps with numbers after them. -/
def writtenType? (d : Dialect) (text : String) : Option String :=
  if isNumbers (text.toList.dropWhile (· ≠ '(')) then
    writtenName? d (String.ofList (text.toList.takeWhile (· ≠ '(')))
  else none

theorem givesType_of_writtenType? {text raw : String} (h : writtenType? d text = some raw) :
    GivesType d text raw := by
  simp only [writtenType?, Option.ite_none_right_eq_some] at h
  obtain ⟨hnumbers, hname⟩ := h
  obtain ⟨hsep, ks, hks, hparams⟩ := gives_of_isNumbers (d := d) hnumbers
  have := givesType_params (String.ofList (text.toList.dropWhile (· ≠ '('))) hname
    (by rwa [String.toList_ofList]) (by rwa [String.toList_ofList]) hparams
  rw [← String.ofList_append, List.takeWhile_append_dropWhile, String.ofList_toList] at this
  exact this

/-! ### Parameters -/

/-- The parameters of a type are written with ASCII digits. -/
def DigitParams (c : Column) : Prop :=
  (∀ l, c.length = some l → ∀ ch ∈ l.toList, ch.isDigit) ∧
    ∀ p, c.precision = some p → ∀ ch ∈ p.toList, ch.isDigit

/-- The texts of the parameters of a column. -/
def paramsOf (c : Column) : List (List Char) :=
  (c.length.toList ++ c.precision.toList).map String.toList

/-- The parameters of a column as they are written. -/
theorem toList_typeParams {c : Column} {params : String} (h : c.typeParams = some params) :
    params.toList = '(' :: ([','].intercalate (paramsOf c) ++ [')']) ∧ c.length.isSome := by
  unfold Column.typeParams at h
  split at h
  · rename_i l p hl hp
    obtain rfl := Option.some.inj h
    simp [paramsOf, hl, hp, List.intercalate_cons_cons]
  · rename_i l hl hp
    obtain rfl := Option.some.inj h
    simp [paramsOf, hl, hp]
  · simp at h

theorem mem_paramsOf {c : Column} {cs : List Char} (h : cs ∈ paramsOf c) :
    c.length = some (String.ofList cs) ∨ c.precision = some (String.ofList cs) := by
  obtain ⟨param, hparam, rfl⟩ := List.mem_map.1 h
  rw [String.ofList_toList]
  simpa using hparam

theorem DigitParams.isDigit {c : Column} (h : DigitParams c) :
    ∀ cs ∈ paramsOf c, ∀ ch ∈ cs, ch.isDigit := by
  intro cs hcs
  rcases mem_paramsOf hcs with hl | hp
  · simpa using h.1 _ hl
  · simpa using h.2 _ hp

/-- The parameters of a column. -/
theorem gives_typeParams {c : Column} {params : String} (hc : DigitParams c)
    (h : c.typeParams = some params) :
    Separated params.toList ∧ ∃ ks, Gives d params.toList ks ∧ ParamKinds ks := by
  rw [(toList_typeParams h).1]
  exact ⟨separated_cons.2 (by decide),
    gives_numbers (paramsOf c) fun cs hcs ch hch => isDecimal_of_isDigit (hc.isDigit cs hcs ch hch)⟩

end Schemata.Ddl
