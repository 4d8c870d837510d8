import Schemata.Proofs.Ddl.Types
import Schemata.Proofs.Sql.Bodies
import Schemata.Proofs.Sql.Excerpts

/-! # Types as they are read

A type that is written as words and numbers is read with its canonical name and these numbers
(`columnOfType?_parts`), which `typeParts?` finds in its text. -/

namespace Schemata.Ddl

open Schemata.Sql Schemata.SqlType Schemata.Text

variable {d : Dialect} {source pre : List Char} {ts rest : List Token}

/-! ### Parts of a type -/

/-- A type as it is read: its name and its parameters. -/
structure TypeParts where
  raw : String
  length : Option String := none
  precision : Option String := none
deriving DecidableEq, Repr

/-- A column of a type. -/
def TypeParts.column (parts : TypeParts) (name : String) : Column :=
  { name, rawType := parts.raw, length := parts.length, precision := parts.precision }

/-- The texts of parameters in parentheses. -/
def paramTexts : List Char → List (List Char)
  | [] => []
  | _ :: r => r.dropLast.splitOn ','

/-- The type that a text is read as: words, perhaps with numbers in parentheses after them. -/
def typeParts? (d : Dialect) (text : String) : Option TypeParts :=
  let params := paramTexts (text.toList.dropWhile (· ≠ '('))
  if params.all (!·.isEmpty) then
    (writtenType? d text).map fun raw =>
      { raw, length := params[0]?.map String.ofList, precision := params[1]?.map String.ofList }
  else none

/-! ### Reading -/

/-- Numbers are read as the parameters of a type. -/
theorem withParameters_numbers {texts : List (List Char)} {c : Column}
    (hne : texts ≠ []) (h : ∀ cs ∈ texts, cs ≠ [] ∧ ∀ ch ∈ cs, ch.isDigit)
    (hs : Stands d source pre ([','].intercalate texts) ts) :
    withParameters source ts c =
      { c with length := texts[0]?.map String.ofList, precision := texts[1]?.map String.ofList } := by
  have hfills : ∀ cs ∈ texts, Fills d cs [.number (String.ofList cs)] :=
    fun cs hcs => fills_digits d (h cs hcs).1 (h cs hcs).2
  have hgives : List.Forall₂ (Gives d) (texts.map id)
      (texts.map fun cs => [TokenKind.number (String.ofList cs)]) :=
    forall₂_map fun cs hcs => (hfills cs hcs).gives
  rw [List.map_id] at hgives
  have hpart : ∀ ks ∈ texts.map fun cs => [TokenKind.number (String.ofList cs)],
      IsPart ks ∧ ks ≠ [] := by
    intro ks hks
    obtain ⟨cs, -, rfl⟩ := List.mem_map.1 hks
    exact ⟨part_nil.cons rfl, by simp⟩
  have hall := hs.definitions (by simp) hgives hpart
  -- every part is one number, which is no member and has its own text
  have hread : List.Forall₂ (fun cs part => memberOf part = none ∧
      sourceText source part = String.ofList cs) texts (splitDefinitions ts) := by
    refine ((List.forall₂_and_left _ _).2 ⟨fun cs hcs => hcs, hall⟩).imp ?_
    rintro cs part ⟨hcs, pre', hpart⟩
    refine ⟨?_, hpart.sourceText_eq (hfills cs hcs)⟩
    obtain ⟨t, rfl, ht⟩ := List.map_eq_singleton_iff.1 (hpart.kinds (hfills cs hcs).gives)
    simp [memberOf, Token.string?, ht]
  unfold withParameters
  generalize splitDefinitions ts = parts at hread
  have htexts : parts.map (sourceText source) = texts.map String.ofList :=
    (map_eq_of_forall₂ (hread.imp fun cs part hp => hp.2.symm)).symm
  have hmembers : parts.all (memberOf · |>.isSome) = false := by
    cases hread with
    | nil => exact absurd rfl hne
    | cons hfirst _ => simp [hfirst.1]
  simp only [hmembers, Bool.and_false, Bool.false_eq_true, if_false, ← List.getElem?_map, htexts]

/-- A text with parts is a name of words, perhaps with numbers after it. -/
theorem typeParts?_cases {text : String} {parts : TypeParts} (h : typeParts? d text = some parts) :
    ∃ name tail, text.toList = name ++ tail ∧ writtenName? d (String.ofList name) = some parts.raw ∧
      (tail = [] ∧ parts = { raw := parts.raw } ∨
        ∃ texts : List (List Char), texts ≠ [] ∧ (∀ cs ∈ texts, cs ≠ [] ∧ ∀ ch ∈ cs, ch.isDigit) ∧
          tail = '(' :: ([','].intercalate texts ++ [')']) ∧
          parts = { raw := parts.raw, length := texts[0]?.map String.ofList
                    precision := texts[1]?.map String.ofList }) := by
  have hsplit := List.takeWhile_append_dropWhile (p := (· ≠ '(')) (l := text.toList)
  unfold typeParts? writtenType? at h
  generalize text.toList.takeWhile (· ≠ '(') = name at h hsplit
  generalize text.toList.dropWhile (· ≠ '(') = tail at h hsplit
  refine ⟨name, tail, hsplit.symm, ?_⟩
  simp only [Option.ite_none_right_eq_some, Option.map_eq_some_iff] at h
  obtain ⟨hfilled, raw, ⟨hnumbers, hname⟩, rfl⟩ := h
  refine ⟨hname, ?_⟩
  cases tail with
  | nil => exact .inl ⟨rfl, rfl⟩
  | cons c r =>
      simp only [isNumbers, Bool.and_eq_true, beq_iff_eq, List.all_eq_true] at hnumbers
      obtain ⟨⟨rfl, hlast⟩, hdigits⟩ := hnumbers
      refine .inr ⟨r.dropLast.splitOn ',', List.splitOn_ne_nil _ _, fun cs hcs => ?_, ?_, rfl⟩
      · refine ⟨?_, hdigits cs hcs⟩
        simpa using List.all_eq_true.1 hfilled cs hcs
      · rw [List.intercalate_splitOn, List.dropLast_append_getLast? _ hlast]

/-- Numbers between commas are balanced. -/
theorem gives_balanced_numbers (d : Dialect) {texts : List (List Char)}
    (h : ∀ cs ∈ texts, cs ≠ [] ∧ ∀ ch ∈ cs, ch.isDigit) :
    ∃ ks, Gives d ([','].intercalate texts) ks ∧ IsBalanced ks := by
  have hgives : List.Forall₂ (Gives d) (texts.map id)
      (texts.map fun cs => [TokenKind.number (String.ofList cs)]) :=
    forall₂_map fun cs hcs => (fills_digits d (h cs hcs).1 (h cs hcs).2).gives
  rw [List.map_id] at hgives
  refine ⟨_, gives_intercalate [','] [.comma] (by decide) (by simp) (fun ht => ht.punct rfl) hgives,
    balanced_intercalate fun ks hks => ?_⟩
  obtain ⟨cs, -, rfl⟩ := List.mem_map.1 hks
  exact balanced_nil

/-- A type of words and numbers is read with these numbers. -/
theorem columnOfType?_numbers {t : Token} {words : List Token} {w : String} {ws : List String}
    {texts : List (List Char)} (ht : t.kind = .word w) (hw : startsType w)
    (hws : ∀ v ∈ ws, goesOnType d v) (hwords : words.map Token.kind = ws.map TokenKind.word)
    (hne : texts ≠ []) (h : ∀ cs ∈ texts, cs ≠ [] ∧ ∀ ch ∈ cs, ch.isDigit)
    (hs : Stands d source pre ('(' :: ([','].intercalate texts ++ [')'])) ts)
    (hrest : StartsClause d rest) (name : String) :
    columnOfType? (rulesOf d) source name (t :: (words ++ (ts ++ rest))) =
      some ({ name, rawType := canonical (" ".intercalate (w :: ws))
              length := texts[0]?.map String.ofList, precision := texts[1]?.map String.ofList },
        rest) := by
  have hopening : punctuation.lookup '(' = some .lparen := rfl
  have hclosing : punctuation.lookup ')' = some .rparen := rfl
  obtain ⟨ks, hks, hbalanced⟩ := gives_balanced_numbers d h
  obtain ⟨us, rfl, hus⟩ := hs.punct hopening
  obtain ⟨body, ts₃, rfl, hbody, h₃⟩ := hus.split hks (separated_cons.2 (by decide))
  obtain ⟨us, rfl, hend⟩ := h₃.punct hclosing
  obtain rfl := hend.nil
  have hbalanced' : IsBalanced (body.map Token.kind) := by
    rw [hbody.kinds hks]
    exact hbalanced
  rw [List.cons_append, List.append_assoc, List.singleton_append,
    columnOfType?_group ht hw hws hwords rfl rfl hbalanced' hrest,
    withParameters_numbers hne h hbody]

/-- **A written type is read** with its parts. -/
theorem columnOfType?_parts {text : String} {parts : TypeParts} (h : typeParts? d text = some parts)
    (hs : Stands d source pre text.toList ts) (hrest : StartsClause d rest) (name : String) :
    columnOfType? (rulesOf d) source name (ts ++ rest) = some (parts.column name, rest) := by
  obtain ⟨word, tail, htext, hname, htail⟩ := typeParts?_cases h
  obtain ⟨w, ws, hwords, hstart, hws, hraw⟩ := gives_writtenName hname
  rw [String.toList_ofList] at hwords
  have hsep : Separated tail := by
    rcases htail with ⟨rfl, -⟩ | ⟨texts, -, -, rfl, -⟩
    · exact separated_nil
    · exact separated_cons.2 (by decide)
  rw [htext] at hs
  obtain ⟨ts₁, ts₂, rfl, h₁, h₂⟩ := hs.split hwords hsep
  obtain ⟨t, words, rfl, ht, hwords'⟩ := List.map_eq_cons_iff.1 (h₁.kinds hwords)
  rw [List.append_assoc, List.cons_append]
  rcases htail with ⟨rfl, hparts⟩ | ⟨texts, hne, hdigits, rfl, hparts⟩
  · obtain rfl := h₂.nil
    rw [List.nil_append, columnOfType?_words ht hstart hws hwords' hrest, hraw, hparts]
    rfl
  · rw [columnOfType?_numbers ht hstart hws hwords' hne hdigits h₂ hrest, hraw, hparts]
    rfl

/-- The parameters of a text with parts are numbers. -/
theorem digitParams_of_typeParts? {text : String} {parts : TypeParts} {c : Column}
    (h : typeParts? d text = some parts) (hlength : c.length = parts.length)
    (hprecision : c.precision = parts.precision) : DigitParams c ∧ FilledParams c := by
  obtain ⟨name, tail, -, -, ⟨-, hparts⟩ | ⟨texts, -, hdigits, -, hparts⟩⟩ := typeParts?_cases h
  · rw [hparts] at hlength hprecision
    simp [DigitParams, FilledParams, hlength, hprecision]
  · have number : ∀ {i : Nat} {s : String}, texts[i]?.map String.ofList = some s →
        (∀ ch ∈ s.toList, ch.isDigit) ∧ s ≠ "" := by
      intro i s hs
      obtain ⟨cs, hcs, rfl⟩ := Option.map_eq_some_iff.1 hs
      obtain ⟨hne, hall⟩ := hdigits cs (List.mem_of_getElem? hcs)
      exact ⟨by simpa using hall, by simpa using hne⟩
    rw [hparts] at hlength hprecision
    refine ⟨⟨fun l hl => ?_, fun p hp => ?_⟩, fun hl => ?_, fun hp => ?_⟩
    · exact (number (hlength ▸ hl)).1
    · exact (number (hprecision ▸ hp)).1
    · exact (number (hlength ▸ hl)).2 rfl
    · exact (number (hprecision ▸ hp)).2 rfl

/-- A text with parts is a type. -/
theorem givesType_of_typeParts? {text : String} {parts : TypeParts}
    (h : typeParts? d text = some parts) : GivesType d text parts.raw := by
  unfold typeParts? at h
  simp only [Option.ite_none_right_eq_some, Option.map_eq_some_iff] at h
  obtain ⟨-, raw, hraw, rfl⟩ := h
  exact givesType_of_writtenType? hraw

/-! ### Types with parameters -/

theorem ne_nil_of_mem_paramsOf {c : Column} (h : FilledParams c) : ∀ cs ∈ paramsOf c, cs ≠ [] := by
  rintro cs hcs rfl
  rcases mem_paramsOf hcs with hl | hp
  · exact h.1 hl
  · exact h.2 hp

/-- A type without parameters has no parenthesis in its text. -/
theorem notMem_of_typeParts? {name raw : String} (h : typeParts? d name = some { raw }) :
    '(' ∉ name.toList ∧ writtenName? d name = some raw := by
  unfold typeParts? at h
  simp only [Option.ite_none_right_eq_some, Option.map_eq_some_iff, TypeParts.mk.injEq,
    Option.map_eq_none_iff] at h
  obtain ⟨-, raw', hname, rfl, hnone, -⟩ := h
  have hdrop : name.toList.dropWhile (· ≠ '(') = [] := by
    cases hd : name.toList.dropWhile (· ≠ '(') with
    | nil => rfl
    | cons c r =>
        rw [hd, paramTexts, List.getElem?_eq_none_iff, Nat.le_zero, List.length_eq_zero_iff] at hnone
        exact absurd hnone (List.splitOn_ne_nil _ _)
  have htake := List.takeWhile_append_dropWhile (p := (· ≠ '(')) (l := name.toList)
  rw [hdrop, List.append_nil] at htake
  have hall : ∀ c ∈ name.toList.takeWhile (· ≠ '('), decide (c ≠ '(') = true :=
    List.all_eq_true.1 List.all_takeWhile
  rw [htake] at hall
  refine ⟨fun hmem => by simpa using hall _ hmem, ?_⟩
  rw [writtenType?, htake, String.ofList_toList] at hname
  simp only [Option.ite_none_right_eq_some] at hname
  exact hname.2

/-- Parameters can be put after a type without any. -/
theorem typeParts?_params {name params raw : String} {c : Column}
    (h : typeParts? d name = some { raw }) (hc : DigitParams c) (hfilled : FilledParams c)
    (hparams : c.typeParams = some params) :
    typeParts? d (name ++ params) = some { raw, length := c.length, precision := c.precision } := by
  obtain ⟨hopen, hname⟩ := notMem_of_typeParts? h
  obtain ⟨htext, hlength⟩ := toList_typeParams hparams
  obtain ⟨l, hl⟩ := Option.isSome_iff_exists.1 hlength
  have hplain : ∀ ch ∈ name.toList, decide (ch ≠ '(') = true := fun ch hch => by
    simpa using ne_of_mem_of_not_mem hch hopen
  have hstop : ∀ ch ∈ params.toList.head?, decide (ch ≠ '(') = false := by simp [htext]
  have htake := takeWhile_append_of_head hplain hstop
  have hdrop := dropWhile_append_of_head hplain hstop
  rw [← String.toList_append] at htake hdrop
  have hcomma : ∀ cs ∈ paramsOf c, ',' ∉ cs := by
    intro cs hcs hmem
    have := hc.isDigit cs hcs ',' hmem
    exact absurd this (by decide)
  have hne : paramsOf c ≠ [] := by simp [paramsOf, hl]
  have hsplit : ([','].intercalate (paramsOf c)).splitOn ',' = paramsOf c :=
    List.splitOn_intercalate ',' hcomma hne
  have htexts : paramTexts params.toList = paramsOf c := by
    rw [htext, paramTexts, List.dropLast_concat, hsplit]
  have hnumbers : isNumbers params.toList := by
    simp only [htext, isNumbers, List.dropLast_concat, hsplit, List.getLast?_concat, beq_self_eq_true,
      Bool.and_true, Bool.true_and, List.all_eq_true]
    exact hc.isDigit
  have hnonempty : (paramsOf c).all (!·.isEmpty) := by
    rw [List.all_eq_true]
    intro cs hcs
    simpa using ne_nil_of_mem_paramsOf hfilled cs hcs
  unfold typeParts? writtenType?
  simp only [htake, hdrop, htexts, hnonempty, if_true, hnumbers, String.ofList_toList, hname,
    Option.map_some]
  cases hp : c.precision <;> simp [paramsOf, hl, hp]

end Schemata.Ddl
