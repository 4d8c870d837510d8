import Schemata.Proofs.Ddl.Tables
import Schemata.Proofs.Ddl.TypeParts
import Schemata.Proofs.Ddl.Values

/-! # Written columns are read in full

A column whose type has parts and whose default is a written value is read with exactly this type and
this text (`readsAs_column`), and keys with their names (`readsAs_keys`). -/

namespace Schemata.Ddl

open Schemata.Sql Schemata.SqlType Schemata.Text

variable {d : Dialect} {source pre : List Char} {ts rest : List Token} {clause : ColumnClause}
  {clauses : List ColumnClause} {name : String}

/-! ### Clauses -/

/-- A clause whose default, if it is one, is a written value. -/
def WritesClause (d : Dialect) (clause : ColumnClause) : Prop :=
  ∀ text, clause = .defaultTo text → WritesValue d text

/-- The kinds of the tokens of a clause. -/
theorem WritesClause.gives (h : WritesClause d clause) (name : String) :
    ∃ valueKinds, ValueKinds valueKinds ∧ Gives d (clause.text (spellingOf d) name).toList
      (clauseKinds d name valueKinds clause) := by
  cases clause with
  | defaultTo text =>
      obtain ⟨ks, hks, hvalue⟩ := (h text rfl).gives
      refine ⟨ks, hvalue, gives_clause fun text' he => ?_⟩
      obtain rfl := ColumnClause.defaultTo.inj he
      exact hks
  | _ => exact ⟨_, .plain (.literal ""), gives_clause (by simp)⟩

/-- **A written clause is read** as the attribute that it is written for. -/
theorem attributes_clause (h : WritesClause d clause)
    (hs : Stands d source pre (clause.text (spellingOf d) name).toList ts)
    (hrest : StartsClause d rest) :
    attributes (rulesOf d) source (ts ++ rest) =
      clause.attribute :: attributes (rulesOf d) source rest := by
  suffices hread : ∃ t r, ts = t :: r ∧
      readAttribute (rulesOf d) source t (r ++ rest) = (clause.attribute, rest) by
    obtain ⟨t, r, rfl, hread⟩ := hread
    rw [List.cons_append, attributes, hread]
  by_cases hdefault : ∃ text, clause = .defaultTo text
  · obtain ⟨text, rfl⟩ := hdefault
    have htext : ((ColumnClause.defaultTo text).text (spellingOf d) name).toList =
        "DEFAULT".toList ++ ' ' :: text.toList := by
      simp [ColumnClause.text]
    rw [htext] at hs
    have hword : Gives d "DEFAULT".toList [.word "DEFAULT"] := gives_word "DEFAULT" (by decide)
    obtain ⟨ts₁, value, rfl, h₁, hvalue⟩ := hs.spaced hword
    obtain ⟨t, rfl, ht⟩ := List.map_eq_singleton_iff.1 (h₁.kinds hword)
    refine ⟨t, value, rfl, ?_⟩
    rw [readAttribute_default (keyword?_word ht)]
    exact defaultAttribute_written (h text rfl) hvalue hrest
  · obtain ⟨valueKinds, -, hgives⟩ := h.gives name
    obtain ⟨t, r, rfl, hread⟩ := readAttribute_clause (rulesOf d) source (by simpa using hdefault)
      (hs.kinds hgives)
    exact ⟨t, r, rfl, hread rest⟩

/-- The text of the clauses after a type. -/
def clausesText (d : Dialect) (name : String) (clauses : List ColumnClause) : List Char :=
  clauses.flatMap fun clause => ' ' :: (clause.text (spellingOf d) name).toList

theorem separated_clausesText (d : Dialect) (name : String) (clauses : List ColumnClause) :
    Separated (clausesText d name clauses) := by
  cases clauses with
  | nil => exact separated_nil
  | cons clause clauses => exact separated_cons.2 (by decide)

/-- **Written clauses are read** one after the other. -/
theorem attributes_clauses (hclauses : ∀ clause ∈ clauses, WritesClause d clause)
    (hwords : ∀ clause ∈ clauses, clause.word ∈ clauseWords d)
    (hs : Stands d source pre (clausesText d name clauses) ts) :
    StartsClause d ts ∧ attributes (rulesOf d) source ts = clauses.map ColumnClause.attribute := by
  induction clauses generalizing pre ts with
  | nil =>
      obtain rfl := hs.nil
      exact ⟨startsClause_nil, by rw [attributes]; rfl⟩
  | cons clause clauses ih =>
      have hclause := hclauses clause (by simp)
      obtain ⟨valueKinds, -, hgives⟩ := hclause.gives name
      have htext : clausesText d name (clause :: clauses) =
          ' ' :: ((clause.text (spellingOf d) name).toList ++ clausesText d name clauses) := rfl
      rw [htext] at hs
      obtain ⟨ts₁, rest, rfl, h₁, h₂⟩ :=
        (hs.blank (by decide)).split hgives (separated_clausesText d name clauses)
      obtain ⟨hstarts, hattributes⟩ :=
        ih (fun c hc => hclauses c (by simp [hc])) (fun c hc => hwords c (by simp [hc])) h₂
      refine ⟨startsClause_clause (hwords clause (by simp)) (h₁.kinds hgives), ?_⟩
      rw [attributes_clause hclause h₁ hstarts, hattributes, List.map_cons]

/-! ### Columns -/

/-- A text that is read as a definition wherever it stands between commas. -/
structure ReadsAs (d : Dialect) (text : String) (definition : Definition) : Prop where
  gives : ∃ ks, Gives d text.toList ks ∧ IsPart ks ∧ .semicolon ∉ ks ∧ ks ≠ []
  reads : ∀ source ts, StandsSomewhere d source text.toList ts →
    Definition.ofTokens (rulesOf d) source ts = definition

/-- What is read from a declaration whose type has these parts. -/
def ColumnLine.reading (rules : Rules) (line : ColumnLine) (parts : TypeParts) : Definition :=
  columnOf rules ((line.clauses.map ColumnClause.attribute).foldl Declaration.add
    { column := parts.column line.name })

theorem intercalate_singleton_cons {α : Type} (sep : α) (l : List α) (ls : List (List α)) :
    [sep].intercalate (l :: ls) = l ++ ls.flatMap (sep :: ·) := by
  induction ls generalizing l with
  | nil => simp
  | cons l' ls ih => rw [List.intercalate_cons_cons, ih]; simp

/-- The characters of a declaration. -/
theorem toList_columnLine (d : Dialect) (line : ColumnLine) :
    (line.text (spellingOf d)).toList =
      ((spellingOf d).name line.name).toList ++
        ' ' :: (line.type.toList ++ clausesText d line.name line.clauses) := by
  have hsep : " ".toList = [' '] := rfl
  rw [ColumnLine.text, String.toList_intercalate, hsep, List.map_cons, intercalate_singleton_cons]
  simp [clausesText, List.flatMap_map]

/-- **A written column is read in full.** -/
theorem readsAs_column {line : ColumnLine} {parts : TypeParts} (hname : line.name ≠ "")
    (hlike : d = .mysql ∨ line.name ≠ "like") (hparts : typeParts? d line.type = some parts)
    (hclauses : ∀ clause ∈ line.clauses, WritesClause d clause)
    (hwords : ∀ clause ∈ line.clauses, clause.word ∈ clauseWords d) :
    ReadsAs d ((TableElement.column line).text (spellingOf d))
      (line.reading (rulesOf d) parts) := by
  obtain ⟨typeKinds, htype, hkinds⟩ := givesType_of_typeParts? hparts
  constructor
  · have hgives : ∀ clause ∈ line.clauses, ∃ ks,
        Gives d (clause.text (spellingOf d) line.name).toList ks ∧ IsPart ks ∧ .semicolon ∉ ks := by
      intro clause hclause
      obtain ⟨valueKinds, hvalue, hgives⟩ := (hclauses clause hclause).gives line.name
      exact ⟨_, hgives, part_clauseKinds hvalue clause⟩
    choose! kinds hall using hgives
    obtain ⟨hline, hpart, hsemicolon⟩ := gives_line htype hkinds hall
    exact ⟨_, hline, hpart, hsemicolon, by simp⟩
  · rintro source ts ⟨pre, hs⟩
    change Stands d source pre (line.text (spellingOf d)).toList ts at hs
    rw [toList_columnLine] at hs
    obtain ⟨ts₁, r, rfl, h₁, hr⟩ := hs.spaced (gives_name d line.name)
    obtain ⟨t, rfl, ht⟩ := List.map_eq_singleton_iff.1 (h₁.kinds (gives_name d line.name))
    obtain ⟨type, others, rfl, htypes, hothers⟩ := hr.split htype (separated_clausesText d _ _)
    obtain ⟨hstarts, hattributes⟩ := attributes_clauses hclauses hwords hothers
    have hread := columnOfType?_parts hparts htypes hstarts line.name
    obtain ⟨w, ws, params, hshape, hw, -⟩ := hkinds.shape
    obtain ⟨u, further, rfl, hu, -⟩ := List.map_eq_cons_iff.1 ((htypes.kinds htype).trans hshape)
    rw [List.cons_append] at hread
    rw [List.singleton_append, List.cons_append,
      ofTokens_declaration hname hlike ht hu hw hread, hattributes]
    rfl

/-! ### Keys -/

/-- A definition without a column is its own outline. -/
theorem eq_of_outline {definition other : Definition} (h : definition.outline = other)
    (hother : ∀ c primary unique notices, other ≠ .column c primary unique notices) :
    definition = other := by
  cases definition with
  | column c primary unique notices => exact absurd h.symm (hother _ _ _ _)
  | _ => exact h

theorem GivesDefinition.readsAs {text : String} {definition : Definition}
    (h : GivesDefinition d text definition)
    (hkey : ∀ c primary unique notices, definition ≠ .column c primary unique notices) :
    ReadsAs d text definition := by
  obtain ⟨ks, hgives, hpart, hsemicolon, hne, hread⟩ := h
  refine ⟨⟨ks, hgives, hpart, hsemicolon, hne⟩, fun source ts ⟨pre, hs⟩ => ?_⟩
  exact eq_of_outline (hread ts source (hs.kinds hgives)) hkey

/-- **Written keys are read in full.** -/
theorem readsAs_keys {elements : List TableElement} {primary : List String}
    {groups : List (List String)} {indexed : List String}
    (h : List.Forall₂ (fun e => GivesDefinition d (e.text (spellingOf d))) elements
      (keyDefinitions primary groups indexed)) :
    List.Forall₂ (fun e => ReadsAs d (e.text (spellingOf d))) elements
      (keyDefinitions primary groups indexed) := by
  have hkeys : ∀ definition ∈ keyDefinitions primary groups indexed,
      ∀ c primary unique notices, definition ≠ .column c primary unique notices := by
    intro definition hmem c key unique notices he
    subst he
    cases hp : primary.isEmpty <;> simp [keyDefinitions, hp] at hmem
  have hall := (List.forall₂_and_left _ _).2 ⟨hkeys, h.flip⟩
  exact (hall.imp fun _ _ hboth => GivesDefinition.readsAs hboth.2 hboth.1).flip

end Schemata.Ddl
