import Schemata.Notice
import Schemata.Sql.Grouping
import Schemata.Sql.Lexer
import Schemata.Table

/-! # Column attributes

What follows the type of a column is a sequence of attributes.  An attribute is read from the front
of the remaining tokens, of which it takes at least one, so that every declaration is read to its
end: a token that starts nothing known is passed over.  The same attributes are understood in both
dialects. -/

namespace Schemata.Sql

open Schemata.Text

/-- An attribute of a column, as far as it says something about the table. -/
inductive Attribute
  | notNull
  | nullable
  | defaultTo (text : String)
  /-- A default that takes the next value of a sequence. -/
  | nextValue
  | primaryKey
  | unique
  | autoIncrement
  | unsigned
  | comment (text : String)
  | dropped (clause : DroppedClause)
  | passedOver
deriving DecidableEq, Repr

/-! ### Defaults -/

/-- Skips a sign. -/
def skipSign : List Token → List Token
  | [] => []
  | t :: r => if t.kind = .symbol '-' ∨ t.kind = .symbol '+' then r else t :: r

/-- Whether a string literal follows the word `t` immediately, so that the two are one literal such
as `b'01'`. -/
def introducesLiteral (t : Token) (r : List Token) : Bool :=
  match r with
  | [] => false
  | u :: _ =>
    match u.kind with
    | .stringLit _ => u.span.start == t.span.stop
    | _ => false

/-- What follows the operand of a default: a group in parentheses, a literal, a name with the
arguments of its call, or any one token. -/
def skipOperand : List Token → List Token
  | [] => []
  | t :: r =>
    match t.kind with
    | .lparen => skipGroup (t :: r)
    | .word _ => if introducesLiteral t r then r.tail else skipGroup (furtherNames r).2
    | _ => r

/-- Whether an operand takes the next value of a sequence. -/
def isNextValue : List Token → Bool
  | [] => false
  | t :: r => t.isKeyword "nextval" && !introducesLiteral t r

/-- Skips the further words of the type of a cast. -/
def skipTypeNames (rules : Rules) : List Token → List Token
  | [] => []
  | t :: r =>
    match t.ident? with
    | some name => if rules.endsType name then t :: r else skipTypeNames rules r
    | none => t :: r

/-- Skips pairs of brackets. -/
def skipBrackets : List Token → List Token
  | [] => []
  | [t] => if t.kind = .lbracket then [] else [t]
  | t :: u :: r =>
    if t.kind = .lbracket then
      if u.kind = .rbracket then skipBrackets r else skipBrackets (u :: r)
    else t :: u :: r

/-- Skips the type of a cast. -/
def skipCastType (rules : Rules) (tokens : List Token) : List Token :=
  let afterNames :=
    match tokens with
    | [] => []
    | t :: r =>
      match t.ident? with
      | some name => if startsConstraint name then t :: r else skipTypeNames rules r
      | none => t :: r
  skipBrackets (skipGroup afterNames)

theorem skipSign_suffix (tokens : List Token) : skipSign tokens <:+ tokens := by
  unfold skipSign
  split
  · exact List.suffix_refl _
  · split
    · exact List.suffix_cons _ _
    · exact List.suffix_refl _

theorem skipOperand_suffix (t : Token) (r : List Token) : skipOperand (t :: r) <:+ t :: r := by
  unfold skipOperand
  dsimp only
  split
  · exact skipGroup_suffix _
  · split
    · exact (List.tail_suffix _).trans (List.suffix_cons _ _)
    · exact (skipGroup_suffix _).trans ((furtherNames_suffix _).trans (List.suffix_cons _ _))
  · exact List.suffix_cons _ _

theorem skipTypeNames_suffix (rules : Rules) (tokens : List Token) :
    skipTypeNames rules tokens <:+ tokens := by
  fun_induction skipTypeNames rules tokens with
  | case1 => exact List.suffix_refl _
  | case2 => exact List.suffix_refl _
  | case3 _ _ _ _ _ ih => exact ih.trans (List.suffix_cons _ _)
  | case4 => exact List.suffix_refl _

theorem skipBrackets_suffix (tokens : List Token) : skipBrackets tokens <:+ tokens := by
  fun_induction skipBrackets tokens with
  | case1 => exact List.suffix_refl _
  | case2 => exact List.nil_suffix
  | case3 => exact List.suffix_refl _
  | case4 _ _ _ _ _ ih => exact ih.trans ((List.suffix_cons _ _).trans (List.suffix_cons _ _))
  | case5 _ _ _ _ _ ih => exact ih.trans (List.suffix_cons _ _)
  | case6 => exact List.suffix_refl _

theorem skipCastType_suffix (rules : Rules) (tokens : List Token) :
    skipCastType rules tokens <:+ tokens := by
  unfold skipCastType
  refine (skipBrackets_suffix _).trans ((skipGroup_suffix _).trans ?_)
  split
  · exact List.suffix_refl _
  · split
    · split
      · exact List.suffix_refl _
      · exact (skipTypeNames_suffix _ _).trans (List.suffix_cons _ _)
    · exact List.suffix_refl _

/-- Skips casts, each of them `::` and a type. -/
def skipCasts (rules : Rules) (tokens : List Token) : List Token :=
  match tokens with
  | [] => []
  | t :: r => if t.kind = .doubleColon then skipCasts rules (skipCastType rules r) else t :: r
termination_by tokens.length
decreasing_by
  have := (skipCastType_suffix rules r).length_le
  simp only [List.length_cons]
  omega

theorem skipCasts_suffix (rules : Rules) (tokens : List Token) :
    skipCasts rules tokens <:+ tokens := by
  fun_induction skipCasts rules tokens with
  | case1 => exact List.suffix_refl _
  | case2 _ _ _ ih =>
    exact ih.trans ((skipCastType_suffix _ _).trans (List.suffix_cons _ _))
  | case3 => exact List.suffix_refl _

/-- The attribute after the word `DEFAULT`.  The expression is kept as the source spells it, without
its casts. -/
def defaultAttribute (rules : Rules) (source : List Char) (tokens : List Token) :
    Attribute × List Token :=
  match skipSign tokens with
  | [] => (.passedOver, [])
  | t :: r =>
    let afterOperand := skipOperand (t :: r)
    let rest := skipCasts rules afterOperand
    if isNextValue (t :: r) then (.nextValue, rest)
    else
      let expression := tokens.take (tokens.length - afterOperand.length)
      (.defaultTo (sourceText source expression), rest)

/-! ### Other attributes -/

/-- The attribute after the word `COMMENT`. -/
def commentAttribute (tokens : List Token) : Attribute × List Token :=
  match tokens with
  | [] => (.passedOver, [])
  | t :: r =>
    match t.string? with
    | some text => (.comment text, r)
    | none => (.passedOver, t :: r)

/-- The attribute after the word `GENERATED`: an identity column, or a computed value. -/
def generatedAttribute (tokens : List Token) : Attribute × List Token :=
  let r₁ :=
    match afterWords ["always"] tokens with
    | some r => r
    | none => (afterWords ["by", "default"] tokens).getD tokens
  let r₂ := skipWord "as" r₁
  match afterWords ["identity"] r₂ with
  | some r => (.autoIncrement, skipGroup r)
  | none =>
    let r₃ := skipGroup r₂
    (.dropped .generated, (afterWords ["stored"] r₃).getD (skipWord "virtual" r₃))

/-- The words that start an action on a foreign key. -/
def referentialActions : List String := ["cascade", "restrict", "set", "no"]

/-- Whether `UPDATE` and a value follow, in place of an action on a foreign key. -/
def isUpdateValue (tokens : List Token) : Bool :=
  match afterWords ["update"] tokens with
  | some r => !startsWithOneOf referentialActions r
  | none => false

/-- The attribute after the word `ON`. -/
def onAttribute (tokens : List Token) : Attribute × List Token :=
  let r := (afterWords ["update"] tokens).getD (skipWord "delete" tokens)
  let rest := if startsWithOneOf ["set", "no"] r then r.drop 2 else skipGroup (r.drop 1)
  (if isUpdateValue tokens then .dropped .onUpdate else .passedOver, rest)

/-- What follows the name of a constraint, which may be left out. -/
def skipConstraintName (tokens : List Token) : List Token :=
  match tokens with
  | [] => []
  | t :: r => if t.word?.any startsConstraint then t :: r else r

/-- The attribute that starts with `t`, and what follows it. -/
def readAttribute (rules : Rules) (source : List Char) (t : Token) (r : List Token) :
    Attribute × List Token :=
  match t.keyword? with
  | some "not" =>
    match afterWords ["null"] r with
    | some rest => (.notNull, rest)
    | none => (.passedOver, r)
  | some "null" => (.nullable, r)
  | some "default" => defaultAttribute rules source r
  | some "primary" =>
    match afterWords ["key"] r with
    | some rest => (.primaryKey, rest)
    | none => (.passedOver, r)
  | some "key" => (.primaryKey, r)
  | some "unique" => (.unique, (afterWords ["key"] r).getD (skipWord "index" r))
  | some "auto_increment" => (.autoIncrement, r)
  | some "autoincrement" => (.autoIncrement, r)
  | some "unsigned" => (.unsigned, r)
  | some "comment" => commentAttribute r
  | some "generated" => generatedAttribute r
  | some "as" => (.dropped .generated, skipGroup r)
  | some "references" =>
    (.dropped .references,
      skipGroup (match qualifiedName? r with
        | some (_, rest) => rest
        | none => r))
  | some "match" => (.passedOver, r.drop 1)
  | some "on" => onAttribute r
  | some "check" => (.dropped .check, skipGroup r)
  | some "constraint" => (.passedOver, skipConstraintName r)
  | some "collate" => (.passedOver, r.drop 1)
  | some "charset" => (.passedOver, r.drop 1)
  | some "character" =>
    match afterWords ["set"] r with
    | some rest => (.passedOver, rest.drop 1)
    | none => (.passedOver, r)
  | some _ => (.passedOver, r)
  | none =>
    match parenGroup? (t :: r) with
    | some (_, rest) => (.passedOver, rest)
    | none => (.passedOver, r)

/-! ### What is left is the end of what was given -/

theorem afterWords_getD_suffix {words : List String} {tokens other : List Token}
    (h : other <:+ tokens) : (afterWords words tokens).getD other <:+ tokens := by
  cases hw : afterWords words tokens with
  | none => exact h
  | some rest => exact afterWords_suffix hw

theorem defaultAttribute_suffix (rules : Rules) (source : List Char) (tokens : List Token) :
    (defaultAttribute rules source tokens).2 <:+ tokens := by
  have hsign := skipSign_suffix tokens
  unfold defaultAttribute
  split
  · exact List.nil_suffix
  · rename_i t r hs
    rw [hs] at hsign
    have := (skipCasts_suffix rules _).trans ((skipOperand_suffix t r).trans hsign)
    dsimp only
    split <;> exact this

theorem commentAttribute_suffix (tokens : List Token) :
    (commentAttribute tokens).2 <:+ tokens := by
  unfold commentAttribute
  split
  · exact List.suffix_refl _
  · split
    · exact List.suffix_cons _ _
    · exact List.suffix_refl _

theorem generatedAttribute_suffix (tokens : List Token) :
    (generatedAttribute tokens).2 <:+ tokens := by
  unfold generatedAttribute
  extract_lets r₁ r₂
  have h₁ : r₁ <:+ tokens := by
    dsimp only [r₁]
    split
    · exact afterWords_suffix ‹_›
    · exact afterWords_getD_suffix (List.suffix_refl _)
  have h₂ : r₂ <:+ tokens := (skipWord_suffix _ _).trans h₁
  split
  · exact (skipGroup_suffix _).trans ((afterWords_suffix ‹_›).trans h₂)
  · exact (afterWords_getD_suffix (skipWord_suffix _ _)).trans ((skipGroup_suffix _).trans h₂)

theorem onAttribute_suffix (tokens : List Token) : (onAttribute tokens).2 <:+ tokens := by
  have h : (afterWords ["update"] tokens).getD (skipWord "delete" tokens) <:+ tokens :=
    afterWords_getD_suffix (skipWord_suffix _ _)
  unfold onAttribute
  dsimp only
  split
  · exact (List.drop_suffix _ _).trans h
  · exact (skipGroup_suffix _).trans ((List.drop_suffix _ _).trans h)

theorem skipConstraintName_suffix (tokens : List Token) :
    skipConstraintName tokens <:+ tokens := by
  unfold skipConstraintName
  split
  · exact List.suffix_refl _
  · split
    · exact List.suffix_refl _
    · exact List.suffix_cons _ _

theorem readAttribute_suffix (rules : Rules) (source : List Char) (t : Token) (r : List Token) :
    (readAttribute rules source t r).2 <:+ r := by
  have hrefl := List.suffix_refl r
  have hdrop : r.drop 1 <:+ r := List.drop_suffix _ _
  unfold readAttribute
  split
  · split
    · exact afterWords_suffix ‹_›
    · exact hrefl
  · exact hrefl
  · exact defaultAttribute_suffix _ _ _
  · split
    · exact afterWords_suffix ‹_›
    · exact hrefl
  · exact hrefl
  · exact afterWords_getD_suffix (skipWord_suffix _ _)
  · exact hrefl
  · exact hrefl
  · exact hrefl
  · exact commentAttribute_suffix _
  · exact generatedAttribute_suffix _
  · exact skipGroup_suffix _
  · refine (skipGroup_suffix _).trans ?_
    split
    · exact qualifiedName?_suffix ‹_›
    · exact hrefl
  · exact hdrop
  · exact onAttribute_suffix _
  · exact skipGroup_suffix _
  · exact skipConstraintName_suffix _
  · exact hdrop
  · exact hdrop
  · split
    · exact (List.drop_suffix _ _).trans (afterWords_suffix ‹_›)
    · exact hrefl
  · exact hrefl
  · split
    · exact parenGroup?_cons_suffix ‹_›
    · exact hrefl

/-- The attributes that a list of tokens spells. -/
def attributes (rules : Rules) (source : List Char) (tokens : List Token) : List Attribute :=
  match tokens with
  | [] => []
  | t :: r =>
    let read := readAttribute rules source t r
    read.1 :: attributes rules source read.2
termination_by tokens.length
decreasing_by
  exact Nat.lt_succ_of_le (readAttribute_suffix rules source t r).length_le

end Schemata.Sql
