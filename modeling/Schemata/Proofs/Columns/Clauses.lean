import Schemata.Proofs.Columns.Loops
import Schemata.Proofs.Sql.TypeEnds

/-! # Clauses

The clauses of a column, as steps of a cursor.  Most of them start with keywords and go on over what may follow
these, so each goes on from where it starts, and a reader that goes on is described by what it leaves.  What is
left by an attribute, which is a clause, a group in parentheses or any other token, is what is left when the
attribute is read (`leaves?_attributeStep`). -/

namespace Schemata.Sql.Cursor

variable {rules : Rules} {c : Cursor} {t : Token} {r : List Token}

/-! ### Defaults -/

/-- The name at the place. -/
def name? (c : Cursor) : Option String := c.peek.bind Token.ident?

/-- The bare word at the place. -/
def word? (c : Cursor) : Option String := c.peek.bind Token.word?

/-- Passes over a sign. -/
def skipSign (c : Cursor) : Cursor :=
  if c.isAt (.symbol '-') || c.isAt (.symbol '+') then c.advance else c

/-- Passes over the operand of a default. -/
def skipOperand (c : Cursor) : Cursor :=
  match c.peek with
  | none => c
  | some t =>
    match t.kind with
    | .lparen => c.eatGroup
    | .word _ =>
      if introducesLiteral t c.advance.rest then c.advance.advance
      else c.advance.eatFurtherNames.eatGroup
    | _ => c.advance

/-- Passes over the names of the type of a cast. -/
def skipCastNames (rules : Rules) (c : Cursor) : Cursor :=
  match c.name? with
  | some name =>
    if startsConstraint name then c
    else (Step.satisfying fun t => t.ident?.any (!rules.endsType ·)).loop c.advance
  | none => c

/-- The step over a pair of brackets, of which the second may be missing. -/
def bracketsStep : Step := (Step.token .lbracket).andThen (eat .rbracket) (runs_eat .rbracket)

/-- Passes over the type of a cast. -/
def skipCastType (rules : Rules) (c : Cursor) : Cursor := bracketsStep.loop (c.skipCastNames rules).eatGroup

theorem runs_skipSign (c : Cursor) : Runs c c.skipSign := by
  unfold skipSign
  split
  · exact runs_advance c
  · exact .refl

theorem runs_skipOperand (c : Cursor) : Runs c c.skipOperand := by
  have hadvance : Runs c c.advance := runs_advance c
  unfold skipOperand
  split
  · exact .refl
  · split
    · exact runs_eatGroup c
    · split
      · exact hadvance.apply .advance
      · exact (hadvance.trans (runs_eatFurtherNames _)).apply .eatGroup
    · exact hadvance

theorem runs_skipCastNames (rules : Rules) (c : Cursor) : Runs c (c.skipCastNames rules) := by
  unfold skipCastNames
  split
  · split
    · exact .refl
    · exact (runs_advance c).trans (Step.runs_loop _ _)
  · exact .refl

theorem runs_skipCastType (rules : Rules) (c : Cursor) : Runs c (c.skipCastType rules) :=
  ((runs_skipCastNames rules c).apply .eatGroup).trans (Step.runs_loop _ _)

/-- The step over a cast. -/
def castStep (rules : Rules) : Step :=
  (Step.token .doubleColon).andThen (skipCastType rules) (runs_skipCastType rules)

/-- Passes over what follows `DEFAULT`. -/
def skipDefault (rules : Rules) (c : Cursor) : Cursor := (castStep rules).loop c.skipSign.skipOperand

theorem runs_skipDefault (rules : Rules) (c : Cursor) : Runs c (c.skipDefault rules) :=
  ((runs_skipSign c).trans (runs_skipOperand _)).trans (Step.runs_loop _ _)

theorem rest_skipSign (c : Cursor) : c.skipSign.rest = Sql.skipSign c.rest := by
  unfold skipSign Sql.skipSign
  rw [isAt_eq, isAt_eq]
  cases h : c.rest with
  | nil => simp [h]
  | cons t r => by_cases hminus : t.kind = .symbol '-' <;> by_cases hplus : t.kind = .symbol '+' <;>
      simp [h, hminus, hplus]

theorem rest_skipOperand (c : Cursor) : c.skipOperand.rest = Sql.skipOperand c.rest := by
  unfold skipOperand Sql.skipOperand
  rw [peek_eq, rest_advance]
  cases h : c.rest with
  | nil => simp [h]
  | cons t r =>
      dsimp only [List.head?_cons]
      cases t.kind with
      | lparen => simp [h]
      | word text => cases hliteral : introducesLiteral t r <;> simp [h, hliteral]
      | _ => simp [h]

theorem skipTypeNames_eq (rules : Rules) (tokens : List Token) :
    skipTypeNames rules tokens = tokens.dropWhile fun t => t.ident?.any (!rules.endsType ·) := by
  induction tokens with
  | nil => rfl
  | cons t r ih =>
      rw [skipTypeNames, List.dropWhile_cons, ← ih]
      cases t.ident? with
      | none => rfl
      | some name => cases h : rules.endsType name <;> simp [h]

theorem skipBrackets_cons (ht : t.kind = .lbracket) (r : List Token) : skipBrackets (t :: r) =
    skipBrackets (if r.head?.any (·.kind == .rbracket) then r.drop 1 else r) := by
  cases r with
  | nil => simp [skipBrackets, ht]
  | cons u r => by_cases hu : u.kind = .rbracket <;> simp [skipBrackets, ht, hu]

theorem skipBrackets_of_ne (h : r.head?.any (·.kind == .lbracket) = false) : skipBrackets r = r := by
  match r with
  | [] => rfl
  | [t] => simp_all [skipBrackets]
  | t :: u :: r => simp_all [skipBrackets]

theorem rest_skipCastType (rules : Rules) (c : Cursor) :
    (c.skipCastType rules).rest = Sql.skipCastType rules c.rest := by
  have hbrackets (c : Cursor) : (bracketsStep.loop c).rest = skipBrackets c.rest :=
    Step.rest_loop_token (rest_eat .rbracket) (fun _ r ht => skipBrackets_cons ht r)
      (fun _ h => skipBrackets_of_ne h) c
  unfold skipCastType Sql.skipCastType
  extract_lets afterNames
  have hnames : (c.skipCastNames rules).rest = afterNames := by
    dsimp only [afterNames]
    unfold skipCastNames
    rw [name?, peek_eq]
    cases h : c.rest with
    | nil => simp [h]
    | cons t r =>
        cases hname : t.ident? with
        | none => simp [h, hname]
        | some name => cases hstart : startsConstraint name <;>
            simp [h, hname, hstart, Step.rest_loop_satisfying, skipTypeNames_eq]
  rw [hbrackets, rest_eatGroup, hnames]

theorem skipCasts_of_ne (h : r.head?.any (·.kind == .doubleColon) = false) : skipCasts rules r = r := by
  cases r with
  | nil => rw [skipCasts]
  | cons t r => rw [skipCasts, if_neg (by simpa using h)]

/-- **What a default leaves.** -/
theorem rest_skipDefault (rules : Rules) (source : List Char) (c : Cursor) :
    (c.skipDefault rules).rest = (defaultAttribute rules source c.rest).2 := by
  have hcasts (c : Cursor) : ((castStep rules).loop c).rest = skipCasts rules c.rest := by
    refine Step.rest_loop_token (rest_skipCastType rules) (fun t r ht => ?_) (fun _ h => skipCasts_of_ne h) c
    rw [skipCasts, if_pos ht]
  rw [skipDefault, hcasts, rest_skipOperand, rest_skipSign, defaultAttribute]
  cases Sql.skipSign c.rest with
  | nil => simp [Sql.skipOperand, skipCasts]
  | cons t r =>
      dsimp only
      split <;> rfl

/-! ### What clauses go on over -/

/-- Passes over one of two runs of keywords, of which the first is looked for first. -/
def eatEither (words others : List String) (c : Cursor) : Cursor := (c.eatWords? words).getD (c.eatWords others)

/-- Passes over a string. -/
def skipString (c : Cursor) : Cursor := if (c.peek.bind Token.string?).isSome then c.advance else c

/-- Passes over the second word of `UNIQUE KEY`. -/
def skipKeyWord (c : Cursor) : Cursor := c.eatEither ["key"] ["index"]

/-- Passes over the target of `REFERENCES`. -/
def skipTarget (c : Cursor) : Cursor := c.eatQualifiedName.eatGroup

/-- Passes over what follows `GENERATED`. -/
def skipGenerated (c : Cursor) : Cursor :=
  let front := (c.eatEither ["always"] ["by", "default"]).eatWords ["as"]
  match front.eatWords? ["identity"] with
  | some d => d.eatGroup
  | none => front.eatGroup.eatEither ["stored"] ["virtual"]

/-- Passes over what follows `ON`. -/
def skipAction (c : Cursor) : Cursor :=
  let d := c.eatEither ["update"] ["delete"]
  match (d.eatWords? ["set"]).or (d.eatWords? ["no"]) with
  | some e => e.advance
  | none => d.advance.eatGroup

/-- Passes over the name of a constraint, which may be left out. -/
def skipConstraintName (c : Cursor) : Cursor := if c.word?.any startsConstraint then c else c.advance

theorem runs_skipString (c : Cursor) : Runs c c.skipString := by
  unfold skipString
  split
  · exact runs_advance c
  · exact .refl

theorem runs_eatEither (words others : List String) (c : Cursor) : Runs c (c.eatEither words others) :=
  runs_getD (fun _ h => runs_eatWords? h) (runs_eatWords others c)

theorem runs_skipKeyWord (c : Cursor) : Runs c c.skipKeyWord := runs_eatEither _ _ c

theorem runs_skipTarget (c : Cursor) : Runs c c.skipTarget :=
  (runs_eatQualifiedName c).apply .eatGroup

theorem runs_skipGenerated (c : Cursor) : Runs c c.skipGenerated := by
  unfold skipGenerated
  extract_lets front
  have hfront : Runs c front := (runs_eatEither _ _ c).apply (.eatWords ["as"])
  split
  · exact (hfront.trans (runs_eatWords? ‹_›)).apply .eatGroup
  · exact (hfront.apply .eatGroup).trans (runs_eatEither _ _ _)

theorem runs_skipAction (c : Cursor) : Runs c c.skipAction := by
  unfold skipAction
  extract_lets d
  have hfront : Runs c d := runs_eatEither _ _ c
  split
  · rename_i e he
    have hword : Runs d e := by
      rcases Option.or_eq_some_iff.1 he with h | ⟨-, h⟩
      · exact runs_eatWords? h
      · exact runs_eatWords? h
    exact (hfront.trans hword).apply .advance
  · exact (hfront.apply .advance).apply .eatGroup

theorem runs_skipConstraintName (c : Cursor) : Runs c c.skipConstraintName := by
  unfold skipConstraintName
  split
  · exact .refl
  · exact runs_advance c

theorem rest_skipString (c : Cursor) : c.skipString.rest = (commentAttribute c.rest).2 := by
  unfold skipString
  rw [peek_eq]
  cases h : c.rest with
  | nil => simp [h, commentAttribute]
  | cons t r => cases hstring : t.string? <;> simp [h, hstring, commentAttribute]

theorem rest_eatEither (words others : List String) (c : Cursor) : (c.eatEither words others).rest =
    (afterWords words c.rest).getD ((afterWords others c.rest).getD c.rest) := by
  rw [eatEither, rest_getD, map_rest_eatWords?, rest_eatWords]

theorem rest_skipKeyWord (c : Cursor) :
    c.skipKeyWord.rest = (afterWords ["key"] c.rest).getD (skipWord "index" c.rest) :=
  rest_eatEither ["key"] ["index"] c

theorem rest_skipTarget (c : Cursor) :
    c.skipTarget.rest = skipGroup (((qualifiedName? c.rest).map Prod.snd).getD c.rest) := by
  rw [skipTarget, rest_eatGroup, rest_eatQualifiedName]

theorem rest_skipGenerated (c : Cursor) : c.skipGenerated.rest = (generatedAttribute c.rest).2 := by
  unfold skipGenerated generatedAttribute
  extract_lets front r₁ r₂
  have hfront : front.rest = r₂ := by
    rw [rest_eatWords, rest_eatEither]
    dsimp only [r₂, r₁]
    cases afterWords ["always"] c.rest <;> rfl
  have hidentity : (front.eatWords? ["identity"]).map rest = afterWords ["identity"] r₂ := by
    rw [map_rest_eatWords?, hfront]
  rw [← hidentity]
  cases front.eatWords? ["identity"] with
  | none =>
      dsimp only [Option.map_none]
      rw [rest_eatEither, rest_eatGroup, hfront]
      rfl
  | some d => exact rest_eatGroup d

theorem rest_skipAction (c : Cursor) : c.skipAction.rest = (onAttribute c.rest).2 := by
  unfold skipAction onAttribute
  extract_lets d r left
  have hfront : d.rest = r := rest_eatEither _ _ c
  have hword (word : String) : (d.eatWords? [word]).map rest = afterWords [word] r := by
    rw [map_rest_eatWords?, hfront]
  have hboth : ((d.eatWords? ["set"]).or (d.eatWords? ["no"])).map rest =
      if startsWithOneOf ["set", "no"] r then some (r.drop 1) else none := by
    rw [Option.map_or, hword, hword]
    cases r with
    | nil => rfl
    | cons t r =>
        cases hset : t.isKeyword "set" <;> cases hno : t.isKeyword "no" <;>
          simp [afterWords, startsWithOneOf, Token.isOneOf, hset, hno]
  -- an action is a word and perhaps a group, or else two words of which the first says so
  change _ = left
  dsimp only [left]
  cases hor : (d.eatWords? ["set"]).or (d.eatWords? ["no"]) with
  | none =>
      rw [hor, Option.map_none, eq_comm, ite_eq_right_iff] at hboth
      rw [if_neg fun hstarts => by simpa using hboth hstarts, ← hfront]
      simp
  | some e =>
      rw [hor, Option.map_some, eq_comm, Option.ite_none_right_eq_some] at hboth
      rw [if_pos hboth.1, rest_advance, ← Option.some.inj hboth.2, List.drop_drop]

theorem rest_skipConstraintName (c : Cursor) :
    c.skipConstraintName.rest = Sql.skipConstraintName c.rest := by
  unfold skipConstraintName Sql.skipConstraintName
  rw [word?, peek_eq]
  cases h : c.rest with
  | nil => simp [h]
  | cons t r => cases hstart : t.word?.any startsConstraint <;> simp [h, hstart]

/-! ### Attributes -/

/-- The clauses of a column. -/
def clauses (rules : Rules) : List Step :=
  [.words "not" ["null"], .words "null" [],
    (Step.words "default" []).andThen (skipDefault rules) (runs_skipDefault rules),
    .words "primary" ["key"], .words "key" [],
    (Step.words "unique" []).andThen skipKeyWord runs_skipKeyWord,
    .words "auto_increment" [], .words "autoincrement" [], .words "unsigned" [], .words "signed" [],
    .words "zerofill" [],
    (Step.words "comment" []).andThen skipString runs_skipString,
    (Step.words "generated" []).andThen skipGenerated runs_skipGenerated,
    (Step.words "as" []).andThen eatGroup runs_eatGroup,
    (Step.words "references" []).andThen skipTarget runs_skipTarget,
    (Step.words "match" []).andThen advance runs_advance,
    (Step.words "on" []).andThen skipAction runs_skipAction,
    (Step.words "check" []).andThen eatGroup runs_eatGroup,
    (Step.words "constraint" []).andThen skipConstraintName runs_skipConstraintName,
    (Step.words "collate" []).andThen advance runs_advance,
    (Step.words "charset" []).andThen advance runs_advance,
    (Step.words "character" ["set"]).andThen advance runs_advance]

/-- The step over an attribute: a clause, or else a group in parentheses or any token. -/
def attributeStep (rules : Rules) : Step := .firstOf (clauses rules ++ [.group, .satisfying fun _ => true])

/-- No keyword opens a group. -/
theorem parenGroup?_keyword (h : t.keyword? ≠ none) : parenGroup? (t :: r) = none := by
  obtain ⟨w, hw⟩ : ∃ w, t.word? = some w := by
    simpa [Token.keyword?, Option.ne_none_iff_exists'] using h
  exact parenGroup?_of_ne (by simp [kind_of_word? hw])

/-- **An attribute leaves** what follows it. -/
theorem leaves?_attributeStep (source : List Char) (h : c.rest = t :: r) :
    (attributeStep rules).leaves? c = some (readAttribute rules source t r).2 := by
  -- each step leaves what the reader of its clause leaves
  simp only [attributeStep, Step.leaves?_firstOf, clauses, List.cons_append, List.nil_append,
    List.findSome?_cons, Step.leaves?_words, Step.leaves?_group, Step.leaves?_satisfying, h,
    Step.leaves?_andThen (List.drop 1) rest_advance, Step.leaves?_andThen skipGroup rest_eatGroup,
    Step.leaves?_andThen (fun ts => (defaultAttribute rules source ts).2) (rest_skipDefault rules source),
    Step.leaves?_andThen (fun ts => (afterWords ["key"] ts).getD (skipWord "index" ts)) rest_skipKeyWord,
    Step.leaves?_andThen (fun ts => (commentAttribute ts).2) rest_skipString,
    Step.leaves?_andThen (fun ts => (generatedAttribute ts).2) rest_skipGenerated,
    Step.leaves?_andThen (fun ts => skipGroup (((qualifiedName? ts).map Prod.snd).getD ts)) rest_skipTarget,
    Step.leaves?_andThen (fun ts => (onAttribute ts).2) rest_skipAction,
    Step.leaves?_andThen Sql.skipConstraintName rest_skipConstraintName, afterWords, Token.isKeyword]
  have hgroup : t.keyword? ≠ none → parenGroup? (t :: r) = none := parenGroup?_keyword
  fun_cases readAttribute rules source t r
  case case15 =>
    -- the target of a reference may be missing
    cases hname : qualifiedName? r <;> simp [*]
  case case24 =>
    -- two clauses that say nothing are not told from other words that are passed over
    by_cases hsigned : t.keyword? = some "signed" <;> by_cases hzerofill : t.keyword? = some "zerofill" <;>
      simp_all
  all_goals simp [*]

end Schemata.Sql.Cursor
