import Schemata.Proofs.Sql.Origins
import Schemata.Proofs.Sql.Parentheses
import Schemata.Proofs.Sql.Statements

/-! # Reading definitions with checks

The readers of definitions again, as programs that check the tokens before they look for a group in
parentheses, and before they split tokens at commas, and give nothing where the check fails (`Checks`).
With `Checks.nothing` they are the readers (`tableOf_nothing`).  `Checks.strict` fails where a parenthesis
at the front is left open to the end, and where a parenthesis is closed that was not opened; in the body of
a table that is created it never fails (`readsClosed_of_createTable`). -/

namespace Schemata.Sql

/-- What is checked before a group in parentheses is looked for at the front of tokens, and before tokens
are split at commas. -/
structure Checks where
  group : List Token → Bool
  parts : List Token → Bool

/-- Nothing is checked. -/
def Checks.nothing : Checks := ⟨fun _ => true, fun _ => true⟩

/-- A parenthesis at the front has to be closed, and each closing one among parts has to be opened. -/
def Checks.strict : Checks where
  group
    | [] => true
    | t :: r => t.kind != .lparen || (closingFrom 1 r).isSome
  parts ts := (depthThrough false 0 (ts.map Token.kind)).isSome

namespace Checked

open Schemata.Text

variable (k : Checks) {rules : Rules} {source : List Char} {t : Token} {ts us r : List Token}

/-! ### Readers -/

/-- The tokens between a parenthesis at the front and its partner, and those after it. -/
def parenGroup? (tokens : List Token) : Option (Option (List Token × List Token)) :=
  if k.group tokens then some (Sql.parenGroup? tokens) else none

/-- The parts between commas outside parentheses that are not empty. -/
def splitDefinitions (tokens : List Token) : Option (List (List Token)) :=
  if k.parts tokens then some (Sql.splitDefinitions tokens) else none

/-- What follows a group in parentheses if there is one at the front. -/
def skipGroup (tokens : List Token) : Option (List Token) :=
  (parenGroup? k tokens).map fun
    | some (_, rest) => rest
    | none => tokens

/-- What follows the operand of a default. -/
def skipOperand : List Token → Option (List Token)
  | [] => some []
  | t :: r =>
    match t.kind with
    | .lparen => skipGroup k (t :: r)
    | .word _ => if introducesLiteral t r then some r.tail else skipGroup k (furtherNames r).2
    | _ => some r

/-- Skips the type of a cast. -/
def skipCastType (rules : Rules) (tokens : List Token) : Option (List Token) :=
  let afterNames :=
    match tokens with
    | [] => []
    | t :: r =>
      match t.ident? with
      | some name => if startsConstraint name then t :: r else skipTypeNames rules r
      | none => t :: r
  (skipGroup k afterNames).map skipBrackets

/-! ### Agreement -/

/-- The checks do not fail on any end of the tokens, nor on what a group in them encloses. -/
structure Passes (ts : List Token) : Prop where
  group : ∀ us, us <:+ ts → k.group us
  parts : ∀ us inner rest, us <:+ ts → Sql.parenGroup? us = some (inner, rest) → k.parts inner

variable {k}

theorem Passes.suffix (h : Passes k ts) (hus : us <:+ ts) : Passes k us where
  group vs hvs := h.group vs (hvs.trans hus)
  parts vs inner rest hvs := h.parts vs inner rest (hvs.trans hus)

/-- A program gives nothing or the value `a`, and the value if `p` holds. -/
structure Agrees {α : Type} (p : Prop) (o : Option α) (a : α) : Prop where
  sound : ∀ x, o = some x → x = a
  complete : p → o = some a

section agreement

variable {α β : Type} {p q : Prop} {o : Option α} {a : α} {b : β}

theorem Agrees.pure (a : α) : Agrees p (some a) a :=
  ⟨fun _ h => (Option.some.inj h).symm, fun _ => rfl⟩

/-- A program that fails where its check does. -/
theorem Agrees.check (passed : Bool) (a : α) : Agrees passed (if passed then some a else none) a := by
  cases passed with
  | true => exact .pure a
  | false => exact ⟨by simp, by simp⟩

theorem Agrees.mono (h : Agrees p o a) (hq : q → p) : Agrees q o a :=
  ⟨h.sound, fun hp => h.complete (hq hp)⟩

theorem Agrees.bind {f : α → Option β} (h : Agrees p o a) (hf : Agrees p (f a) b) :
    Agrees p (o.bind f) b := by
  refine ⟨fun x hx => ?_, fun hp => ?_⟩
  · obtain ⟨y, hy, hfy⟩ := Option.bind_eq_some_iff.1 hx
    rw [h.sound y hy] at hfy
    exact hf.sound x hfy
  · rw [h.complete hp, Option.bind_some, hf.complete hp]

theorem Agrees.map (h : Agrees p o a) (f : α → β) : Agrees p (o.map f) (f a) := by
  rw [Option.map_eq_bind]
  exact h.bind (.pure _)

theorem Agrees.mapM {f : α → Option β} {g : α → β} {l : List α}
    (h : ∀ a ∈ l, Agrees p (f a) (g a)) : Agrees p (l.mapM f) (l.map g) := by
  induction l with
  | nil => exact .pure _
  | cons a l ih =>
      rw [List.mapM_cons]
      exact (h a (by simp)).bind ((ih fun b hb => h b (by simp [hb])).bind (.pure _))

end agreement

/-! ### Groups -/

theorem parenGroup?_agrees (ts : List Token) :
    Agrees (Passes k ts) (parenGroup? k ts) (Sql.parenGroup? ts) :=
  (Agrees.check _ _).mono fun h => h.group ts List.suffix_rfl

theorem skipGroup_agrees (ts : List Token) :
    Agrees (Passes k ts) (skipGroup k ts) (Sql.skipGroup ts) :=
  (parenGroup?_agrees ts).map _

theorem splitDefinitions_agrees (ts : List Token) :
    Agrees (k.parts ts) (splitDefinitions k ts) (Sql.splitDefinitions ts) :=
  .check _ _

/-! ### Attributes -/

theorem skipOperand_agrees (ts : List Token) :
    Agrees (Passes k ts) (skipOperand k ts) (Sql.skipOperand ts) := by
  cases ts with
  | nil => exact .pure _
  | cons t r =>
      unfold skipOperand Sql.skipOperand
      dsimp only
      cases t.kind with
      | lparen => exact skipGroup_agrees _
      | word text =>
          dsimp only
          split
          · exact .pure _
          · exact (skipGroup_agrees _).mono fun h =>
              h.suffix ((furtherNames_suffix r).trans (List.suffix_cons t r))
      | _ => exact .pure _

theorem skipCastType_agrees (rules : Rules) (ts : List Token) :
    Agrees (Passes k ts) (skipCastType k rules ts) (Sql.skipCastType rules ts) := by
  unfold skipCastType Sql.skipCastType
  refine ((skipGroup_agrees _).mono fun h => h.suffix ?_).map _
  split
  · exact List.suffix_rfl
  · split
    · split
      · exact List.suffix_rfl
      · exact (skipTypeNames_suffix rules _).trans (List.suffix_cons _ _)
    · exact List.suffix_rfl

/-- Skips casts, each of them `::` and a type. -/
def skipCasts (k : Checks) (rules : Rules) (tokens : List Token) : Option (List Token) :=
  match tokens with
  | [] => some []
  | t :: r =>
    if t.kind = .doubleColon then
      match _h : skipCastType k rules r with
      | none => none
      | some rest => skipCasts k rules rest
    else some (t :: r)
termination_by tokens.length
decreasing_by
  obtain rfl := (skipCastType_agrees rules r).sound rest _h
  exact Nat.lt_succ_of_le (skipCastType_suffix rules r).length_le

theorem skipCasts_cons (rules : Rules) (t : Token) (r : List Token) :
    skipCasts k rules (t :: r) =
      if t.kind = .doubleColon then (skipCastType k rules r).bind (skipCasts k rules)
      else some (t :: r) := by
  rw [skipCasts]
  split
  · split <;> rename_i h <;> rw [h] <;> rfl
  · rfl

theorem skipCasts_agrees (rules : Rules) (ts : List Token) :
    Agrees (Passes k ts) (skipCasts k rules ts) (Sql.skipCasts rules ts) := by
  fun_induction Sql.skipCasts rules ts with
  | case1 =>
      rw [skipCasts]
      exact .pure _
  | case2 t r ht ih =>
      have hr := List.suffix_cons t r
      rw [skipCasts_cons, if_pos ht]
      exact ((skipCastType_agrees rules r).mono fun h => h.suffix hr).bind
        (ih.mono fun h => h.suffix ((skipCastType_suffix rules r).trans hr))
  | case3 t r ht =>
      rw [skipCasts_cons, if_neg ht]
      exact .pure _

/-- The attribute after the word `DEFAULT`. -/
def defaultAttribute (k : Checks) (rules : Rules) (source : List Char) (tokens : List Token) :
    Option (Attribute × List Token) :=
  match skipSign tokens with
  | [] => some (.passedOver, [])
  | t :: r => do
    let afterOperand ← skipOperand k (t :: r)
    let rest ← skipCasts k rules afterOperand
    if isNextValue (t :: r) then some (.nextValue, rest)
    else
      let expression := tokens.take (tokens.length - afterOperand.length)
      some (.defaultTo (sourceText source expression), rest)

/-- The attribute after the word `GENERATED`. -/
def generatedAttribute (k : Checks) (tokens : List Token) : Option (Attribute × List Token) :=
  let r₁ :=
    match afterWords ["always"] tokens with
    | some r => r
    | none => (afterWords ["by", "default"] tokens).getD tokens
  let r₂ := skipWord "as" r₁
  match afterWords ["identity"] r₂ with
  | some r => (skipGroup k r).map fun rest => (.autoIncrement, rest)
  | none =>
    (skipGroup k r₂).map fun r₃ =>
      (.dropped .generated, (afterWords ["stored"] r₃).getD (skipWord "virtual" r₃))

/-- The attribute after the word `ON`. -/
def onAttribute (k : Checks) (tokens : List Token) : Option (Attribute × List Token) :=
  let r := (afterWords ["update"] tokens).getD (skipWord "delete" tokens)
  let action := if isUpdateValue tokens then .dropped .onUpdate else .passedOver
  if startsWithOneOf ["set", "no"] r then some (action, r.drop 2)
  else (skipGroup k (r.drop 1)).map fun rest => (action, rest)

/-- The attribute that starts with `t`, and what follows it.  The other ones have no groups. -/
def readAttribute (k : Checks) (rules : Rules) (source : List Char) (t : Token) (r : List Token) :
    Option (Attribute × List Token) :=
  match t.keyword? with
  | some "default" => defaultAttribute k rules source r
  | some "generated" => generatedAttribute k r
  | some "as" => (skipGroup k r).map fun rest => (.dropped .generated, rest)
  | some "references" =>
    (skipGroup k ((qualifiedName? r).elim r (·.2))).map fun rest => (.dropped .references, rest)
  | some "on" => onAttribute k r
  | some "check" => (skipGroup k r).map fun rest => (.dropped .check, rest)
  | some _ => some (Sql.readAttribute rules source t r)
  | none => (parenGroup? k (t :: r)).map fun group => (.passedOver, group.elim r (·.2))

theorem defaultAttribute_agrees (rules : Rules) (source : List Char) (ts : List Token) :
    Agrees (Passes k ts) (defaultAttribute k rules source ts) (Sql.defaultAttribute rules source ts) := by
  have hsign := skipSign_suffix ts
  unfold defaultAttribute Sql.defaultAttribute
  cases hread : skipSign ts with
  | nil => exact .pure _
  | cons t r =>
      rw [hread] at hsign
      have hoperand := (skipOperand_suffix t r).trans hsign
      refine ((skipOperand_agrees _).mono fun h => h.suffix hsign).bind
        (((skipCasts_agrees rules _).mono fun h => h.suffix hoperand).bind ?_)
      dsimp only
      split <;> exact .pure _

theorem generatedAttribute_agrees (ts : List Token) :
    Agrees (Passes k ts) (generatedAttribute k ts) (Sql.generatedAttribute ts) := by
  have halways : (match afterWords ["always"] ts with
      | some r => r
      | none => (afterWords ["by", "default"] ts).getD ts) <:+ ts := by
    split
    · exact afterWords_suffix ‹_›
    · exact afterWords_getD_suffix List.suffix_rfl
  have hr := (skipWord_suffix "as" _).trans halways
  unfold generatedAttribute Sql.generatedAttribute
  dsimp only
  generalize skipWord "as" _ = r at hr
  cases hidentity : afterWords ["identity"] r with
  | some rest =>
      exact ((skipGroup_agrees rest).mono fun h => h.suffix ((afterWords_suffix hidentity).trans hr)).map _
  | none => exact ((skipGroup_agrees r).mono fun h => h.suffix hr).map _

theorem onAttribute_agrees (ts : List Token) :
    Agrees (Passes k ts) (onAttribute k ts) (Sql.onAttribute ts) := by
  have hr : (afterWords ["update"] ts).getD (skipWord "delete" ts) <:+ ts :=
    afterWords_getD_suffix (skipWord_suffix "delete" ts)
  unfold onAttribute Sql.onAttribute
  dsimp only
  generalize (afterWords ["update"] ts).getD _ = r at hr
  by_cases haction : startsWithOneOf ["set", "no"] r
  · rw [if_pos haction, if_pos haction]
    exact .pure _
  · rw [if_neg haction, if_neg haction]
    exact ((skipGroup_agrees _).mono fun h => h.suffix ((List.drop_suffix 1 r).trans hr)).map _

theorem readAttribute_agrees (rules : Rules) (source : List Char) (t : Token) (r : List Token) :
    Agrees (Passes k (t :: r)) (readAttribute k rules source t r) (Sql.readAttribute rules source t r) := by
  have hr : Passes k (t :: r) → Passes k r := fun h => h.suffix (List.suffix_cons t r)
  unfold readAttribute
  split <;> rename_i hword
  · simp only [Sql.readAttribute, hword]
    exact (defaultAttribute_agrees rules source r).mono hr
  · simp only [Sql.readAttribute, hword]
    exact (generatedAttribute_agrees r).mono hr
  · simp only [Sql.readAttribute, hword]
    exact ((skipGroup_agrees r).mono hr).map _
  · simp only [Sql.readAttribute, hword]
    cases hname : qualifiedName? r with
    | none => exact ((skipGroup_agrees r).mono hr).map _
    | some read =>
        exact ((skipGroup_agrees read.2).mono fun h =>
          (hr h).suffix (qualifiedName?_suffix hname)).map _
  · simp only [Sql.readAttribute, hword]
    exact (onAttribute_agrees r).mono hr
  · simp only [Sql.readAttribute, hword]
    exact ((skipGroup_agrees r).mono hr).map _
  · exact .pure _
  · simp only [Sql.readAttribute, hword]
    have hgroup := (parenGroup?_agrees (k := k) (t :: r)).map fun group =>
      ((.passedOver, group.elim r (·.2)) : Attribute × List Token)
    cases hsome : Sql.parenGroup? (t :: r) <;> rwa [hsome] at hgroup

/-- The attributes that a list of tokens spells. -/
def attributes (k : Checks) (rules : Rules) (source : List Char) (tokens : List Token) :
    Option (List Attribute) :=
  match tokens with
  | [] => some []
  | t :: r =>
    match _h : readAttribute k rules source t r with
    | none => none
    | some read => (attributes k rules source read.2).map (read.1 :: ·)
termination_by tokens.length
decreasing_by
  obtain rfl := (readAttribute_agrees rules source t r).sound read _h
  exact Nat.lt_succ_of_le (readAttribute_suffix rules source t r).length_le

theorem attributes_cons (rules : Rules) (source : List Char) (t : Token) (r : List Token) :
    attributes k rules source (t :: r) = (readAttribute k rules source t r).bind fun read =>
      (attributes k rules source read.2).map (read.1 :: ·) := by
  rw [attributes]
  split <;> rename_i h <;> rw [h] <;> rfl

theorem attributes_agrees (rules : Rules) (source : List Char) (ts : List Token) :
    Agrees (Passes k ts) (attributes k rules source ts) (Sql.attributes rules source ts) := by
  fun_induction Sql.attributes rules source ts with
  | case1 =>
      rw [attributes]
      exact .pure _
  | case2 t r read ih =>
      have hrest := (readAttribute_suffix rules source t r).trans (List.suffix_cons t r)
      rw [attributes_cons]
      exact (readAttribute_agrees rules source t r).bind ((ih.mono fun h => h.suffix hrest).map _)

/-! ### Types -/

/-- A column with the type parameters between the given parentheses. -/
def withParameters (k : Checks) (source : List Char) (params : List Token) (c : Column) : Option Column :=
  (splitDefinitions k params).map fun groups =>
    if !groups.isEmpty && groups.all (memberOf · |>.isSome) then
      { c with members := groups.filterMap memberOf }
    else
      { c with
        length := groups[0]?.map (sourceText source)
        precision := groups[1]?.map (sourceText source) }

/-- A column of the given name and of the type at the front, and what follows the type. -/
def columnOfType? (k : Checks) (rules : Rules) (source : List Char) (name : String) :
    List Token → Option (Option (Column × List Token))
  | [] => some none
  | t :: r =>
    match t.word? with
    | none => some none
    | some first =>
      if startsConstraint first then some none
      else do
        let (words, r₁) := typeWords rules r
        let (c, furtherWords, r₂) ←
          match ← parenGroup? k r₁ with
          | some (params, r₂) =>
            let (furtherWords, r₃) := typeWords rules r₂
            (withParameters k source params { name, rawType := "" }).map fun c => (c, furtherWords, r₃)
          | none => some ({ name, rawType := "" }, [], r₁)
        let (dimensions, rest) := arrayMarks r₂
        let base := SqlType.canonical (" ".intercalate (first :: words ++ furtherWords))
        some (some ({ c with rawType := base ++ String.join (List.replicate dimensions "[]") }, rest))

theorem withParameters_agrees (source : List Char) (params : List Token) (c : Column) :
    Agrees (k.parts params) (withParameters k source params c) (Sql.withParameters source params c) :=
  (splitDefinitions_agrees params).map _

theorem columnOfType?_agrees (rules : Rules) (source : List Char) (name : String) (ts : List Token) :
    Agrees (Passes k ts) (columnOfType? k rules source name ts)
      (Sql.columnOfType? rules source name ts) := by
  cases ts with
  | nil => exact .pure _
  | cons t r =>
      have hwords := (typeWords_suffix rules r).trans (List.suffix_cons t r)
      unfold columnOfType? Sql.columnOfType?
      dsimp only
      cases t.word? with
      | none => exact .pure _
      | some first =>
          dsimp only
          split
          · exact .pure _
          · refine ((parenGroup?_agrees _).mono fun h => h.suffix hwords).bind ?_
            cases hgroup : Sql.parenGroup? (typeWords rules r).2 with
            | none => exact .pure _
            | some group =>
                have hparams := (withParameters_agrees source group.1 { name, rawType := "" }).mono
                  fun h : Passes k (t :: r) => h.parts _ _ _ hwords hgroup
                exact (hparams.map _).bind (.pure _)

/-! ### Definitions -/

/-- A column declaration. -/
def columnDefinition? (k : Checks) (rules : Rules) (source : List Char) (tokens : List Token) :
    Option (Option Definition) :=
  match tokens with
  | [] => some none
  | t :: r =>
    match t.ident? with
    | none => some none
    | some name =>
      if name.isEmpty then some none
      else do
        match ← columnOfType? k rules source name r with
        | none => some none
        | some (c, rest) => do
          let read ← attributes k rules source rest
          let d := read.foldl Declaration.add { column := c }
          let c := Declaration.settle rules d.column
          some (some (.column c d.primary d.unique (d.notices ++ Declaration.typeNotices rules c)))

/-- The names listed in the first parentheses. -/
def keyNames? (k : Checks) (tokens : List Token) : Option (Option (List String)) := do
  match ← parenGroup? k (tokens.dropWhile (·.kind ≠ .lparen)) with
  | none => some none
  | some (group, _) => do
    let parts ← splitDefinitions k group
    match parts.filterMap (·.head?.bind Token.ident?) with
    | [] => some none
    | names => some (some names)

/-- A key with its names, or the notice that none are listed. -/
def keyed (k : Checks) (key : List String → Definition) (what : SkippedDefinition) (text : String)
    (tokens : List Token) : Option Definition :=
  (keyNames? k tokens).map fun
    | some names => key names
    | none => .skipped (.skipped what text)

/-- A constraint or an index of the table. -/
def tableConstraint (k : Checks) (rules : Rules) (text : String) (tokens : List Token) :
    Option Definition :=
  match afterWords ["primary", "key"] tokens, afterWords ["unique"] tokens with
  | some rest, _ => keyed k .primaryKey .primaryKey text rest
  | none, some rest => keyed k .unique .unique text rest
  | none, none =>
    if startsIndex rules tokens then keyed k .index .index text tokens
    else some (.skipped (.skipped .constraint text))

/-- What a definition declares. -/
def ofTokens (k : Checks) (rules : Rules) (source : List Char) (tokens : List Token) :
    Option Definition :=
  let text := sourceText source tokens
  match afterWords ["constraint"] tokens with
  | some r =>
    tableConstraint k rules text (if startsWithOneOf constraintBodyWords r then r else r.drop 1)
  | none =>
    if startsTableConstraint rules tokens then tableConstraint k rules text tokens
    else (columnDefinition? k rules source tokens).map (·.getD (.skipped (.skipped .column text)))

/-- The table of a name that a list of definitions declares. -/
def tableOf (k : Checks) (rules : Rules) (source : List Char) (name : String) (body : List Token) :
    Option Table := do
  let parts ← splitDefinitions k body
  let definitions ← parts.mapM (ofTokens k rules source)
  let t := (definitions.foldl Table.add { dialect := rules.dialect, name }).resolveNames
  if t.columns.isEmpty then some { t with warnings := t.warnings ++ [(Notice.noColumns name).message] }
  else some t

theorem columnDefinition?_agrees (rules : Rules) (source : List Char) (ts : List Token) :
    Agrees (Passes k ts) (columnDefinition? k rules source ts)
      (Sql.columnDefinition? rules source ts) := by
  cases ts with
  | nil => exact .pure _
  | cons t r =>
      have hr := List.suffix_cons t r
      unfold columnDefinition? Sql.columnDefinition?
      dsimp only
      cases t.ident? with
      | none => exact .pure _
      | some name =>
          dsimp only
          split
          · exact .pure _
          · refine ((columnOfType?_agrees rules source name r).mono fun h => h.suffix hr).bind ?_
            cases htype : Sql.columnOfType? rules source name r with
            | none => exact .pure _
            | some read =>
                have hrest := (columnOfType?_cases htype).1.trans hr
                exact ((attributes_agrees rules source read.2).mono fun h => h.suffix hrest).bind (.pure _)

theorem keyNames?_agrees (ts : List Token) :
    Agrees (Passes k ts) (keyNames? k ts) (Sql.keyNames? ts) := by
  have hfirst := List.dropWhile_suffix (l := ts) (fun t => decide (t.kind ≠ .lparen))
  unfold keyNames? Sql.keyNames?
  refine ((parenGroup?_agrees _).mono fun h => h.suffix hfirst).bind ?_
  cases hgroup : Sql.parenGroup? (ts.dropWhile (·.kind ≠ .lparen)) with
  | none => exact .pure _
  | some group =>
      refine ((splitDefinitions_agrees group.1).mono fun h => h.parts _ _ _ hfirst hgroup).bind ?_
      dsimp only
      cases (Sql.splitDefinitions group.1).filterMap (·.head?.bind Token.ident?) <;> exact .pure _

theorem keyed_agrees (key : List String → Definition) (what : SkippedDefinition) (text : String)
    (ts : List Token) : Agrees (Passes k ts) (keyed k key what text ts) (Sql.keyed key what text ts) := by
  have hnames := (keyNames?_agrees (k := k) ts).map fun
    | some names => key names
    | none => .skipped (.skipped what text)
  unfold Sql.keyed
  cases hsome : Sql.keyNames? ts <;> rwa [hsome] at hnames

theorem tableConstraint_agrees (rules : Rules) (text : String) (ts : List Token) :
    Agrees (Passes k ts) (tableConstraint k rules text ts) (Sql.tableConstraint rules text ts) := by
  unfold tableConstraint Sql.tableConstraint
  cases hprimary : afterWords ["primary", "key"] ts with
  | some rest => exact (keyed_agrees _ _ _ rest).mono fun h => h.suffix (afterWords_suffix hprimary)
  | none =>
      cases hunique : afterWords ["unique"] ts with
      | some rest => exact (keyed_agrees _ _ _ rest).mono fun h => h.suffix (afterWords_suffix hunique)
      | none =>
          dsimp only
          split
          · exact keyed_agrees _ _ _ ts
          · exact .pure _

theorem ofTokens_agrees (rules : Rules) (source : List Char) (ts : List Token) :
    Agrees (Passes k ts) (ofTokens k rules source ts) (Definition.ofTokens rules source ts) := by
  unfold ofTokens Definition.ofTokens
  dsimp only
  cases hconstraint : afterWords ["constraint"] ts with
  | some r =>
      refine (tableConstraint_agrees rules _ _).mono fun h => h.suffix ?_
      split
      · exact afterWords_suffix hconstraint
      · exact (List.drop_suffix 1 r).trans (afterWords_suffix hconstraint)
  | none =>
      dsimp only
      split
      · exact tableConstraint_agrees rules _ _
      · exact (columnDefinition?_agrees rules source ts).map _

/-- **A table is read** if the checks fail neither on the body nor on any part of it. -/
theorem tableOf_agrees (rules : Rules) (source : List Char) (name : String) (body : List Token) :
    Agrees (k.parts body ∧ ∀ part ∈ Sql.splitDefinitions body, Passes k part)
      (tableOf k rules source name body) (Sql.tableOf rules source name body) := by
  refine ((splitDefinitions_agrees body).mono And.left).bind
    ((Agrees.mapM fun part hpart => (ofTokens_agrees rules source part).mono fun h => h.2 part hpart).bind ?_)
  unfold Sql.tableOf
  dsimp only
  split <;> exact .pure _

/-- **Without checks** the table is the one that is read. -/
theorem tableOf_nothing (rules : Rules) (source : List Char) (name : String) (body : List Token) :
    tableOf .nothing rules source name body = some (Sql.tableOf rules source name body) :=
  (tableOf_agrees rules source name body).complete ⟨rfl, fun _ _ => ⟨fun _ _ => rfl, fun _ _ _ _ _ => rfl⟩⟩

end Checked

/-- The strict checks stop at a default that is not closed. -/
example : (tokenize mysqlRules "a int DEFAULT (1 NOT NULL".toList).toOption.map
    (Checked.ofTokens .strict mysqlRules "a int DEFAULT (1 NOT NULL".toList) = some none := by
  decide +kernel

/-! ### Bodies of tables -/

/-- The strict check of a group fails only where a parenthesis at the front is left open. -/
theorem strict_group : Checks.strict.group ts ↔ FrontCloses ts := by
  cases ts with
  | nil => simp [Checks.strict, FrontCloses]
  | cons t r =>
      simp only [Checks.strict, FrontCloses, Bool.or_eq_true, bne_iff_ne, List.cons.injEq, and_imp]
      constructor
      · rintro h _ _ rfl rfl ht
        exact h.resolve_left (· ht)
      · exact fun h => (Decidable.em (t.kind = .lparen)).symm.imp_right (h t r rfl rfl)

/-- The strict check of parts never fails on balanced tokens. -/
theorem strict_parts (h : IsBalanced (ts.map Token.kind)) : Checks.strict.parts ts := by
  change (depthThrough false 0 (ts.map Token.kind)).isSome
  rw [IsBalanced] at h
  rw [h]
  rfl

/-- **The strict checks never fail in balanced tokens.** -/
theorem passes_strict (h : IsBalanced (ts.map Token.kind)) : Checked.Passes .strict ts where
  group _ hus := strict_group.2 (frontCloses_of_isBalanced h hus)
  parts _ _ _ hus hgroup :=
    strict_parts (isBalanced_of_parenGroup? (frontCloses_of_isBalanced h hus) hgroup)

/-- A body in which parentheses are balanced, in each definition too, and in which no reader of a
definition comes to a group that is not closed or splits tokens that close more than they open. -/
structure ReadsClosed (rules : Rules) (source : List Char) (name : String) (body : List Token) : Prop where
  whole : Balances (body.map Token.kind)
  parts : ∀ part ∈ splitDefinitions body, Balances (part.map Token.kind)
  definitions : ∀ part ∈ splitDefinitions body,
    Checked.ofTokens .strict rules source part = some (Definition.ofTokens rules source part)
  table : Checked.tableOf .strict rules source name body = some (tableOf rules source name body)

theorem readsClosed_of_isBalanced (rules : Rules) (source : List Char) (name : String)
    (h : IsBalanced (ts.map Token.kind)) : ReadsClosed rules source name ts := by
  have hparts : ∀ part ∈ splitDefinitions ts, IsBalanced (part.map Token.kind) :=
    fun part hpart => (isPart_of_mem_splitDefinitions h hpart).balanced
  refine ⟨isBalanced_iff.1 h, fun part hpart => isBalanced_iff.1 (hparts part hpart), ?_, ?_⟩
  · exact fun part hpart => (Checked.ofTokens_agrees rules source part).complete
      (passes_strict (hparts part hpart))
  · exact (Checked.tableOf_agrees rules source name ts).complete
      ⟨strict_parts h, fun part hpart => passes_strict (hparts part hpart)⟩

/-- **The body of a table that is created is read with its parentheses closed.** -/
theorem readsClosed_of_createTable {statement after : List Token} {table : Table}
    (hstart : StartsTable statement after) (h : createTable rules source statement after = .ok table) :
    ∃ name body options, Formed statement name body options ∧
      table = { tableOf rules source name body with tableComment := (optionComment options).getD "" } ∧
      ReadsClosed rules source name body := by
  rcases createTable_cases rules source hstart with ⟨fault, offset, -, herror⟩ | ⟨t, hforms, hok⟩
  · rw [h] at herror
    cases herror
  · obtain rfl : table = t := Except.ok.inj (h.symm.trans hok)
    obtain ⟨name, body, options, hformed, htable⟩ := hforms
    have hbody : IsBalanced (body.map Token.kind) := by
      obtain ⟨_, _, _, -, -, -, hbody, -⟩ := hformed
      exact hbody
    exact ⟨name, body, options, hformed, htable, readsClosed_of_isBalanced rules source name hbody⟩

/-- A table with groups in groups: the parameters of a type, a default, a check and a key. -/
def nestedScript : String :=
  "CREATE TABLE t (a decimal(10, (2)) DEFAULT ((1) + f(2)) CHECK ((a) > 0), b int, KEY (a, (b + (1))))"

/-- Its table. -/
def nestedTable : Table where
  dialect := .mysql
  name := "t"
  columns :=
    [{ name := "a"
       rawType := "decimal"
       length := some "10"
       precision := some "(2)"
       defaultValue := some "((1) + f(2))" },
      { name := "b", rawType := "int" }]
  indexes := [["a"]]
  warnings := ["Column 'a': CHECK constraint was dropped"]

theorem readsClosed_nestedScript :
    ∃ statement after, tokenize mysqlRules nestedScript.toList = .ok statement ∧
      StartsTable statement after ∧
      createTable mysqlRules nestedScript.toList statement after = .ok nestedTable ∧
      ∃ name body options, Formed statement name body options ∧
        ReadsClosed mysqlRules nestedScript.toList name body := by
  have ofOption : ∀ {ε α : Type} {x : Except ε α} {a : α}, x.toOption = some a → x = .ok a
    | _, _, .ok _, _, h => congrArg _ (Option.some.inj h)
  have hread : ((tokenize mysqlRules nestedScript.toList).toOption.bind fun statement =>
      (afterCreateTable statement).bind fun after =>
        (createTable mysqlRules nestedScript.toList statement after).toOption) = some nestedTable := by
    decide +kernel
  obtain ⟨statement, hstatement, hread⟩ := Option.bind_eq_some_iff.1 hread
  obtain ⟨after, hafter, hread⟩ := Option.bind_eq_some_iff.1 hread
  have htokens := ofOption hstatement
  have hok := ofOption hread
  have hstart := afterCreateTable_eq_some.1 hafter
  obtain ⟨name, body, options, hformed, -, hclosed⟩ := readsClosed_of_createTable hstart hok
  exact ⟨statement, after, htokens, hstart, hok, name, body, options, hformed, hclosed⟩

end Schemata.Sql
