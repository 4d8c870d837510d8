import Schemata.Proofs.Columns.Clauses
import Schemata.Proofs.Ddl.Definitions

/-! # Progress

A column is read by a cursor that goes on to the end of its definition.  Its name and its type are passed over
by loops of which each step goes on by a token at least (`markStep`), and so are its attributes, one of which
can be read wherever a token is left (`exists_attributeStep`).  Whatever stands in a definition, and wherever it
breaks off, the loop over the attributes therefore stops at the end of the definition and nowhere before
(`reads_to_end`). -/

namespace Schemata.Sql.Cursor

open Schemata.Text

variable {rules : Rules} {source : List Char} {tokens r : List Token} {c : Cursor} {t : Token} {p : Nat}

/-! ### Types -/

/-- Passes over the words that go on a type. -/
def skipTypeWords (rules : Rules) (c : Cursor) : Cursor :=
  (Step.satisfying fun t => t.word?.any fun w => !(rules.endsType w || sameWord w "array")).loop c

theorem runs_skipTypeWords (rules : Rules) (c : Cursor) : Runs c (c.skipTypeWords rules) := Step.runs_loop _ c

/-- Passes over the parameters of a type and the words that go on it after them, if there are parameters. -/
def skipParameters (rules : Rules) (c : Cursor) : Cursor :=
  ((Step.group.andThen (skipTypeWords rules) (runs_skipTypeWords rules)).take? c).getD c

theorem runs_skipParameters (rules : Rules) (c : Cursor) : Runs c (c.skipParameters rules) :=
  runs_getD (fun _ h => Step.runs _ h) .refl

/-- Passes over a closing bracket and what stands before it. -/
def skipToBracket (c : Cursor) : Cursor := ((Step.satisfying fun t => decide (t.kind ≠ .rbracket)).loop c).advance

theorem runs_skipToBracket (c : Cursor) : Runs c c.skipToBracket := (Step.runs_loop _ c).apply .advance

/-- The step over the mark of a dimension. -/
def markStep : Step :=
  .firstOf [(Step.token .lbracket).andThen skipToBracket runs_skipToBracket, .words "array" []]

/-- Passes over what goes on a type. -/
def skipTypeEnd (rules : Rules) (c : Cursor) : Cursor :=
  markStep.loop ((c.skipTypeWords rules).skipParameters rules)

theorem runs_skipTypeEnd (rules : Rules) (c : Cursor) : Runs c (c.skipTypeEnd rules) :=
  ((runs_skipTypeWords rules c).trans (runs_skipParameters rules _)).trans (Step.runs_loop _ _)

/-- The step over a type. -/
def typeStep (rules : Rules) : Step :=
  (Step.satisfying fun t => t.word?.any (!startsConstraint ·)).andThen (skipTypeEnd rules) (runs_skipTypeEnd rules)

/-- The step over the name of a column. -/
def nameStep : Step := .satisfying fun t => t.ident?.any (!·.isEmpty)

theorem rest_skipTypeWords (rules : Rules) (c : Cursor) :
    (c.skipTypeWords rules).rest = (typeWords rules c.rest).2 := by
  rw [skipTypeWords, Step.rest_loop_satisfying]
  induction c.rest with
  | nil => rfl
  | cons t r ih =>
      rw [typeWords, List.dropWhile_cons, ih]
      cases t.word? with
      | none => rfl
      | some w =>
          cases hends : rules.endsType w || sameWord w "array" <;> simp only [Option.any_some, hends] <;> rfl

theorem rest_skipParameters (rules : Rules) (c : Cursor) : (c.skipParameters rules).rest =
    ((parenGroup? c.rest).map fun group => (typeWords rules group.2).2).getD c.rest := by
  have hleaves := Step.leaves?_andThen (s := .group) (fun ts => (typeWords rules ts).2) (rest_skipTypeWords rules)
    (h := runs_skipTypeWords rules) c
  rw [skipParameters, rest_getD]
  exact congrArg (·.getD c.rest) (hleaves.trans (by rw [Step.leaves?_group, Option.map_map]))

theorem rest_skipToBracket (c : Cursor) :
    c.skipToBracket.rest = (c.rest.dropWhile fun t => decide (t.kind ≠ .rbracket)).drop 1 := by
  rw [skipToBracket, rest_advance, Step.rest_loop_satisfying]

/-- A mark of a dimension is counted, and marks are looked for in what the step over it leaves. -/
theorem arrayMarks_step (c : Cursor) : arrayMarks c.rest =
    (markStep.leaves? c).elim (0, c.rest) fun ts => ((arrayMarks ts).1 + 1, (arrayMarks ts).2) := by
  rw [markStep, Step.leaves?_firstOf, List.findSome?_cons, List.findSome?_cons,
    Step.leaves?_andThen (fun ts => (ts.dropWhile fun t => decide (t.kind ≠ .rbracket)).drop 1) rest_skipToBracket,
    Step.leaves?_token, Step.leaves?_words]
  cases c.rest with
  | nil => simp [arrayMarks, afterWords]
  | cons t r =>
      rw [arrayMarks]
      by_cases hbracket : t.kind = .lbracket
      · simp [hbracket]
      · cases harray : t.isKeyword "array" <;> simp [hbracket, harray, afterWords]

/-- **Marks of dimensions are counted** by the steps over them. -/
theorem arrayMarks_eq (c : Cursor) :
    arrayMarks c.rest = ((markStep.places c).length, (markStep.loop c).rest) := by
  fun_induction markStep.places c with
  | case1 c d h ih =>
      rw [arrayMarks_step, Step.leaves?, h, Option.map_some, Option.elim_some, ih, Step.loop_of_some h]
      rfl
  | case2 c h =>
      rw [arrayMarks_step, Step.leaves?, h, Step.loop_of_none h]
      rfl

/-- What is left after a type of which the first word has been read. -/
def typeRest (rules : Rules) (ts : List Token) : List Token :=
  let r := (typeWords rules ts).2
  (arrayMarks (((parenGroup? r).map fun group => (typeWords rules group.2).2).getD r)).2

theorem rest_skipTypeEnd (rules : Rules) (c : Cursor) : (c.skipTypeEnd rules).rest = typeRest rules c.rest := by
  have hmarks (c : Cursor) : (markStep.loop c).rest = (arrayMarks c.rest).2 := by rw [arrayMarks_eq]
  rw [skipTypeEnd, hmarks, rest_skipParameters, rest_skipTypeWords, typeRest]

/-- **A type is passed over** where one is read. -/
theorem leaves?_typeStep (rules : Rules) (source : List Char) (name : String) (c : Cursor) :
    (typeStep rules).leaves? c = (columnOfType? rules source name c.rest).map Prod.snd := by
  rw [typeStep, Step.leaves?_andThen (typeRest rules) (rest_skipTypeEnd rules), Step.leaves?_satisfying,
    columnOfType?_stem, Option.map_map]
  cases c.rest with
  | nil => rfl
  | cons t r =>
      rw [typeStem]
      cases hword : t.word? with
      | none => simp [hword]
      | some first =>
          by_cases hstart : startsConstraint first
          · simp [hword, hstart]
          · cases hgroup : parenGroup? (typeWords rules r).2 <;> simp [hword, hstart, typeRest, hgroup]

/-! ### Attributes -/

/-- **An attribute can be read wherever a token is left.** -/
theorem exists_attributeStep (rules : Rules) (source : List Char) (h : c.rest = t :: r) :
    ∃ d, (attributeStep rules).take? c = some d ∧ d.rest = (readAttribute rules source t r).2 :=
  Option.map_eq_some_iff.1 (leaves?_attributeStep source h)

theorem rest_eq_nil (h : (attributeStep rules).take? c = none) : c.rest = [] := by
  cases hrest : c.rest with
  | nil => rfl
  | cons t r =>
      obtain ⟨d, hd, -⟩ := exists_attributeStep rules [] hrest
      simp [hd] at h

/-- **Attributes are read to the end.** -/
theorem loop_attributeStep (rules : Rules) (hp : p ≤ tokens.length) :
    (attributeStep rules).loop ⟨tokens, p⟩ = ⟨tokens, tokens.length⟩ := by
  obtain ⟨q, hq, -, hle⟩ := ((attributeStep rules).runs_loop ⟨tokens, p⟩).moves.exists_place hp
  have hend := rest_eq_nil ((attributeStep rules).take?_loop ⟨tokens, p⟩)
  rw [hq, rest, List.drop_eq_nil_iff] at hend
  rw [hq, Nat.le_antisymm hle hend]

/-- The attribute that is read at a place. -/
def attributeAt? (rules : Rules) (source : List Char) (tokens : List Token) (p : Nat) : Option Attribute :=
  tokens[p]?.map fun t => (readAttribute rules source t (tokens.drop (p + 1))).1

theorem attributeAt?_eq (h : c.rest = t :: r) :
    attributeAt? rules source c.tokens c.pos = some (readAttribute rules source t r).1 := by
  obtain ⟨before, rfl⟩ := exists_before h
  simp [attributeAt?]

/-- **Attributes are read at the places of the loop over them.** -/
theorem map_some_attributes (rules : Rules) (source : List Char) (c : Cursor) :
    (attributes rules source c.rest).map some =
      ((attributeStep rules).places c).map (attributeAt? rules source c.tokens) := by
  fun_induction (attributeStep rules).places c with
  | case1 c d h ih =>
      have htokens : d.tokens = c.tokens := ((attributeStep rules).runs h).moves.tokens
      have hthere := (attributeStep rules).there h
      rw [peek_eq] at hthere
      cases hrest : c.rest with
      | nil => simp [hrest] at hthere
      | cons t r =>
          obtain ⟨d', hd', hleaves⟩ := exists_attributeStep rules source hrest
          obtain rfl : d = d' := Option.some.inj (h.symm.trans hd')
          rw [attributes, List.map_cons, List.map_cons, attributeAt?_eq hrest, ← hleaves, ih, htokens]
  | case2 c h => rw [rest_eq_nil h, attributes, List.map_nil, List.map_nil]

/-! ### Definitions -/

/-- **A column is read** where a name and a type are passed over. -/
theorem columnDefinition?_steps (rules : Rules) (source : List Char) (tokens : List Token) :
    ((nameStep.take? ⟨tokens, 0⟩).bind (typeStep rules).take? = none ∧
      columnDefinition? rules source tokens = none) ∨
    ∃ name typed d, nameStep.take? ⟨tokens, 0⟩ = some ⟨tokens, 1⟩ ∧
      (typeStep rules).take? ⟨tokens, 1⟩ = some d ∧
      columnOfType? rules source name (tokens.drop 1) = some (typed, d.rest) ∧
      columnDefinition? rules source tokens = some (Ddl.columnOf rules
        ((attributes rules source d.rest).foldl Declaration.add { column := typed })) := by
  cases tokens with
  | nil => exact .inl ⟨rfl, rfl⟩
  | cons t r =>
      have hname : nameStep.take? ⟨t :: r, 0⟩ =
          if t.ident?.any (!·.isEmpty) then some ⟨t :: r, 1⟩ else none := rfl
      rw [hname, columnDefinition?]
      cases t.ident? with
      | none => exact .inl ⟨rfl, rfl⟩
      | some name =>
          by_cases hempty : name.isEmpty
          · exact .inl (by simp [hempty])
          · have hleaves := leaves?_typeStep rules source name ⟨t :: r, 1⟩
            change _ = (columnOfType? rules source name r).map Prod.snd at hleaves
            rw [Step.leaves?] at hleaves
            dsimp only
            cases hread : columnOfType? rules source name r with
            | none =>
                rw [hread, Option.map_none, Option.map_eq_none_iff] at hleaves
                exact .inl (by simp [hempty, hleaves])
            | some read =>
                rw [hread, Option.map_some, Option.map_eq_some_iff] at hleaves
                obtain ⟨d, hd, hrest⟩ := hleaves
                refine .inr ⟨name, read.1, d, by simp [hempty], hd, ?_, ?_⟩
                · rw [hrest]
                  exact hread
                · rw [if_neg hempty, hrest]
                  rfl

/-- How a cursor goes through a definition. -/
structure ReadsToEnd (rules : Rules) (source : List Char) (tokens : List Token) : Prop where
  /-- No operation goes back or past the end. -/
  operations : ∀ op : Operation, ∀ p ≤ tokens.length,
    ∃ q, op.apply ⟨tokens, p⟩ = ⟨tokens, q⟩ ∧ p ≤ q ∧ q ≤ tokens.length
  /-- The step over the mark of a dimension goes on. -/
  mark : ∀ p c, markStep.take? ⟨tokens, p⟩ = some c →
    Runs ⟨tokens, p⟩ c ∧ ∃ q, c = ⟨tokens, q⟩ ∧ p < q ∧ q ≤ tokens.length
  /-- Dimensions are counted by these steps. -/
  marks : ∀ p ≤ tokens.length, ∃ q, markStep.loop ⟨tokens, p⟩ = ⟨tokens, q⟩ ∧ p ≤ q ∧ q ≤ tokens.length ∧
    arrayMarks (tokens.drop p) = ((markStep.places ⟨tokens, p⟩).length, tokens.drop q)
  /-- Before the end an attribute is read, and the step over it goes on. -/
  clause : ∀ p, ∀ hp : p < tokens.length, ∃ q, (attributeStep rules).take? ⟨tokens, p⟩ = some ⟨tokens, q⟩ ∧
    Runs ⟨tokens, p⟩ ⟨tokens, q⟩ ∧ p < q ∧ q ≤ tokens.length ∧
    (readAttribute rules source tokens[p] (tokens.drop (p + 1))).2 = tokens.drop q
  /-- Attributes are read by these steps, at one place after the other, and the last step ends at the end. -/
  clauses : ∀ p ≤ tokens.length, (attributeStep rules).loop ⟨tokens, p⟩ = ⟨tokens, tokens.length⟩ ∧
    ((attributeStep rules).places ⟨tokens, p⟩).Pairwise (· < ·) ∧
    (attributes rules source (tokens.drop p)).map some =
      ((attributeStep rules).places ⟨tokens, p⟩).map (attributeAt? rules source tokens)
  /-- A column is read where a name and a type are passed over, with the attributes from there on. -/
  column : ((nameStep.take? ⟨tokens, 0⟩).bind (typeStep rules).take? = none ∧
      columnDefinition? rules source tokens = none) ∨
    ∃ name typed p, nameStep.take? ⟨tokens, 0⟩ = some ⟨tokens, 1⟩ ∧
      (typeStep rules).take? ⟨tokens, 1⟩ = some ⟨tokens, p⟩ ∧ 1 < p ∧ p ≤ tokens.length ∧
      columnOfType? rules source name (tokens.drop 1) = some (typed, tokens.drop p) ∧
      columnDefinition? rules source tokens = some (Ddl.columnOf rules
        ((attributes rules source (tokens.drop p)).foldl Declaration.add { column := typed }))

/-- **Every definition is read to its end.** -/
theorem reads_to_end (rules : Rules) (source : List Char) (tokens : List Token) :
    ReadsToEnd rules source tokens where
  operations op p hp := (op.moves ⟨tokens, p⟩).exists_place hp
  mark p c h := ⟨markStep.runs h, Step.exists_place h⟩
  marks p hp := by
    obtain ⟨q, hq, hpq, hle⟩ := (markStep.runs_loop ⟨tokens, p⟩).moves.exists_place hp
    refine ⟨q, hq, hpq, hle, ?_⟩
    have hmarks := arrayMarks_eq ⟨tokens, p⟩
    rwa [hq] at hmarks
  clause p hp := by
    have hrest : rest ⟨tokens, p⟩ = tokens[p] :: tokens.drop (p + 1) := List.drop_eq_getElem_cons hp
    obtain ⟨d, hd, hleaves⟩ := exists_attributeStep rules source hrest
    obtain ⟨q, rfl, hpq, hle⟩ := Step.exists_place hd
    exact ⟨q, hd, (attributeStep rules).runs hd, hpq, hle, hleaves.symm⟩
  clauses p hp := ⟨loop_attributeStep rules hp, (Step.places_sorted _ _).1,
    map_some_attributes rules source ⟨tokens, p⟩⟩
  column := by
    rcases columnDefinition?_steps rules source tokens with h | ⟨name, typed, d, hname, htype, hread, hcolumn⟩
    · exact .inl h
    · obtain ⟨p, rfl, hp, hle⟩ := Step.exists_place htype
      exact .inr ⟨name, typed, p, hname, htype, hp, hle, hread, hcolumn⟩

end Schemata.Sql.Cursor
