import Schemata.Proofs.Columns.ClauseOrder

/-! # Casts of defaults

Casts after the value of a default say nothing: a declaration with casts makes the same column, the same
keys and the same notices as the one without them (`sameColumn_casts`).  What comes before them may be any
attributes that end before a word `DEFAULT` (`EndsBeforeDefault`), and what follows starts with a word that
ends a type. -/

namespace Schemata.Sql

open Schemata.Text

variable {d : Dialect} {rules : Rules} {source source' start rest : List Char} {s : String}
  {typed : Column} {t word : Token} {ts us r before value casts more : List Token}

/-! ### Attributes before a default -/

/-- Attributes that end before a word `DEFAULT`. -/
def EndsBeforeDefault (rules : Rules) (ks : List TokenKind) : Prop :=
  ∀ source ts t r, ts.map Token.kind = ks → t.isKeyword "default" →
    attributes rules source (ts ++ t :: r) =
      attributes rules source ts ++ attributes rules source (t :: r)

theorem startsFreely_default (ht : t.isKeyword "default") (r : List Token) : StartsFreely (t :: r) := by
  intro u hu
  obtain rfl : t = u := Option.some.inj hu
  exact List.any_eq_true.2 ⟨"default", by decide, ht⟩

/-- Tokens of clauses fall apart into those of each of them. -/
theorem exists_clauseTokens {clauses : List Clause} {kss : List (List TokenKind)}
    (h : List.Forall₂ Spells clauses kss) (hks : ts.map Token.kind = kss.flatten) :
    ∃ tss, ts = tss.flatten ∧
      List.Forall₂ (fun p ts => Spells p (ts.map Token.kind)) clauses tss := by
  induction h generalizing ts with
  | nil => exact ⟨[], by simpa using hks, .nil⟩
  | cons hspells _ ih =>
      obtain ⟨ts₁, ts₂, rfl, rfl, hrest⟩ := List.map_eq_append_iff.1 hks
      obtain ⟨tss, rfl, htss⟩ := ih hrest
      exact ⟨ts₁ :: tss, rfl, .cons hspells htss⟩

/-- Clauses whose order is free end before the word. -/
theorem endsBeforeDefault_clauses {clauses : List Clause} {kss : List (List TokenKind)}
    (h : List.Forall₂ Spells clauses kss) : EndsBeforeDefault rules kss.flatten := by
  intro source ts t r hks ht
  obtain ⟨tss, rfl, hspells⟩ := exists_clauseTokens h hks
  have hnone := attributes_flatten hspells rules source startsFreely_nil
  have hsome := attributes_flatten hspells rules source (startsFreely_default ht r)
  rw [List.append_nil, attributes_nil, List.append_nil] at hnone
  rw [hsome.1, hnone.1]

/-! ### Declarations with a default -/

/-- The start of a declaration: a name, a type, attributes that end before the word `DEFAULT`, and a
value. -/
structure DeclaresDefault (rules : Rules) (source : List Char) (s : String) (typed : Column)
    (ts before : List Token) (word : Token) (value : List Token) : Prop where
  named : s ≠ ""
  reads : ∃ first r, ts = first :: r ∧ first.ident? = some s ∧
    columnOfType? rules source s r = some (typed, before ++ word :: value)
  ends : EndsBeforeDefault rules (before.map Token.kind)
  keyword : word.keyword? = some "default"
  operand : IsOperand (value.map Token.kind)

/-- The attributes of a declaration with a default. -/
def withDefaultAttributes (rules : Rules) (source : List Char) (before value more : List Token) :
    List Attribute :=
  attributes rules source before ++
    (defaultAttribute rules source value).1 :: attributes rules source more

/-- **A declaration with a default is read** past the casts of its value. -/
theorem DeclaresDefault.columnDefinition?_eq
    (h : DeclaresDefault rules source s typed ts before word value)
    (hcasts : IsCasts rules (casts.map Token.kind)) (hmore : StartsWithEnd rules more) :
    columnDefinition? rules source (ts ++ (casts ++ more)) = some (Ddl.columnOf rules
      ((withDefaultAttributes rules source before value more).foldl Declaration.add
        { column := typed })) := by
  obtain ⟨first, r, rfl, hname, hread⟩ := h.reads
  have hextend := columnOfType?_extend hread (by simp) (casts ++ more)
  have hword : word.isKeyword "default" := by rw [Token.isKeyword, h.keyword, beq_self_eq_true]
  have hattributes : attributes rules source (before ++ word :: value ++ (casts ++ more)) =
      withDefaultAttributes rules source before value more := by
    rw [List.append_assoc, List.cons_append, h.ends source before word _ rfl hword, attributes,
      readAttribute_default h.keyword, defaultAttribute_append rules source h.operand
        (hcasts.ends hmore).1, skipCasts_chain hcasts hmore]
    rfl
  rw [List.cons_append, columnDefinition?]
  simp only [hname, String.isEmpty_iff, h.named, if_false, hextend, Option.map_some, hattributes]
  rfl

/-- A copy of the start of a declaration declares the same. -/
theorem DeclaresDefault.copy (h : DeclaresDefault rules source s typed ts before word value)
    (hcopies : Copies source source' ts us) :
    ∃ before' word' value', DeclaresDefault rules source' s typed us before' word' value' ∧
      Copies source source' before before' ∧ Copies source source' value value' := by
  obtain ⟨first, r, rfl, hname, hread⟩ := h.reads
  obtain ⟨first', r', rfl, hkind, hr⟩ := hcopies.of_cons
  obtain ⟨tail, hread', htail⟩ := hr.columnOfType? hread
  obtain ⟨before', tail, rfl, hbefore, htail⟩ := htail.of_append
  obtain ⟨word', value', rfl, hword, hvalue⟩ := htail.of_cons
  refine ⟨before', word', value', ?_, hbefore, hvalue⟩
  exact
    { named := h.named
      reads := ⟨first', r', rfl, (ident?_congr hkind).symm.trans hname, hread'⟩
      ends := hbefore.map_kind ▸ h.ends
      keyword := (keyword?_congr hword).symm.trans h.keyword
      operand := hvalue.map_kind ▸ h.operand }

/-! ### Next values -/

/-- A numbered column stays numbered, and without a default if no attribute gives one. -/
theorem numbered_foldl_add (as : List Attribute) (dec : Declaration) (hauto : dec.column.autoIncrement)
    (hdefault : dec.column.defaultValue = none) :
    (as.foldl Declaration.add dec).column.autoIncrement ∧
      ((∀ text, .defaultTo text ∉ as) → (as.foldl Declaration.add dec).column.defaultValue = none) := by
  have step : ∀ (dec : Declaration) (a : Attribute), dec.column.autoIncrement →
      (dec.add a).column.autoIncrement := by
    intro dec a h
    cases a <;> first | exact h | rfl
  have keeps : ∀ (dec : Declaration) (a : Attribute), (∀ text, a ≠ .defaultTo text) →
      dec.column.defaultValue = none → (dec.add a).column.defaultValue = none := by
    intro dec a ha h
    cases a with
    | defaultTo text => exact absurd rfl (ha text)
    | nextValue => rfl
    | _ => exact h
  constructor
  · clear hdefault
    induction as generalizing dec with
    | nil => exact hauto
    | cons a as ih => exact ih _ (step dec a hauto)
  · clear hauto
    intro hnone
    induction as generalizing dec with
    | nil => exact hdefault
    | cons a as ih =>
        refine ih _ (keeps dec a (fun text he => hnone text (by simp [he])) hdefault) fun text hmem => ?_
        exact hnone text (List.mem_cons_of_mem a hmem)

/-- A value that starts with the word `nextval` takes the next value of a sequence. -/
theorem defaultAttribute_nextValue (rules : Rules) (source : List Char)
    (h : IsOperand (value.map Token.kind)) (hnext : value.head?.any (·.isKeyword "nextval")) :
    (defaultAttribute rules source value).1 = .nextValue := by
  obtain ⟨t, r, hread⟩ := exists_readsOperand h
  obtain ⟨hsign, -, hnextval⟩ := hread [] endsOperand_nil
  rw [List.append_nil] at hsign hnextval
  cases value with
  | nil => simp at hnext
  | cons u us =>
      have hword : u.isKeyword "nextval" := by simpa using hnext
      obtain ⟨w, hw, -⟩ := Option.map_eq_some_iff.1 (beq_iff_eq.1 hword)
      have hself : skipSign (u :: us) = u :: us := Ddl.skipSign_of_ne (by simp [kind_of_word? hw])
      rw [List.append_nil, hself] at hsign
      obtain ⟨rfl, rfl⟩ := List.cons.inj hsign
      unfold defaultAttribute
      rw [hself]
      simp [hnextval, hword]

/-- The declaration of a next value makes a numbered column, without a default but one that what follows
gives. -/
theorem numbered_nextValue (rules : Rules) (source : List Char) (h : IsOperand (value.map Token.kind))
    (hnext : value.head?.any (·.isKeyword "nextval")) (before more : List Token) (dec : Declaration)
    {c : Column} (hc : c = Declaration.settle rules
      ((withDefaultAttributes rules source before value more).foldl Declaration.add dec).column) :
    c.autoIncrement ∧ ((∀ text, .defaultTo text ∉ attributes rules source more) → c.defaultValue = none) := by
  obtain ⟨hauto, hdefault⟩ := numbered_foldl_add (attributes rules source more)
    (((attributes rules source before).foldl Declaration.add dec).add .nextValue) rfl rfl
  rw [withDefaultAttributes, defaultAttribute_nextValue rules source h hnext, List.foldl_append,
    List.foldl_cons] at hc
  subst hc
  refine ⟨?_, fun hnone => ?_⟩
  · rw [Declaration.settle, if_pos (by rw [hauto, Bool.true_or])]
    rfl
  · rw [settle_keeps (f := Column.defaultValue) fun _ => rfl]
    exact hdefault hnone

/-! ### Casts -/

/-- **Casts say nothing.**  Where the same start of a declaration, up to the value of its default, and the
same end stand in two sources, with casts between them in one of the sources, the same column is declared
with the same keys and notices.  If the value is a call of `nextval`, the column is numbered and has no
default but one that the end gives. -/
theorem sameColumn_casts {ts' rest rest' : List Token} {start finish : List Char}
    (hstart : StandsSomewhere d source start ts) (hstart' : StandsSomewhere d source' start ts')
    (hfinish : StandsSomewhere d source finish rest) (hfinish' : StandsSomewhere d source' finish rest')
    (h : DeclaresDefault (rulesOf d) source s typed ts before word value)
    (hcasts : IsCasts (rulesOf d) (casts.map Token.kind)) (hrest : StartsWithEnd (rulesOf d) rest) :
    ∃ c primary unique notices, c.name = s ∧
      columnDefinition? (rulesOf d) source (ts ++ (casts ++ rest)) =
        some (.column c primary unique notices) ∧
      columnDefinition? (rulesOf d) source' (ts' ++ rest') = some (.column c primary unique notices) ∧
      (TakenForColumn (rulesOf d) (ts ++ (casts ++ rest)) ↔ TakenForColumn (rulesOf d) (ts' ++ rest')) ∧
      (TakenForColumn (rulesOf d) (ts ++ (casts ++ rest)) →
        Definition.ofTokens (rulesOf d) source (ts ++ (casts ++ rest)) =
            .column c primary unique notices ∧
          Definition.ofTokens (rulesOf d) source' (ts' ++ rest') = .column c primary unique notices) ∧
      (value.head?.any (·.isKeyword "nextval") → c.autoIncrement ∧
        ((∀ text, .defaultTo text ∉ attributes (rulesOf d) source rest) → c.defaultValue = none)) := by
  have hends := hfinish.copies hfinish'
  have hcopies := hstart.copies hstart'
  obtain ⟨before', word', value', h', hbefore, hvalue⟩ := h.copy hcopies
  have hcolumn := h.columnDefinition?_eq hcasts hrest
  have hrest' : StartsWithEnd (rulesOf d) rest' := by
    cases hends with
    | nil => exact startsWithEnd_nil
    | cons hkind =>
        intro u hu
        obtain rfl := Option.some.inj hu
        obtain ⟨w, hw, hend⟩ := hrest _ rfl
        exact ⟨w, (word?_congr hkind).symm.trans hw, hend⟩
  have hnone : IsCasts (rulesOf d) (([] : List Token).map Token.kind) := ⟨[], rfl, by simp⟩
  have hcolumn' := h'.columnDefinition?_eq hnone hrest'
  have hsame : withDefaultAttributes (rulesOf d) source' before' value' rest' =
      withDefaultAttributes (rulesOf d) source before value rest := by
    rw [withDefaultAttributes, withDefaultAttributes, hbefore.attributes, hvalue.defaultAttribute,
      hends.attributes]
  rw [hsame] at hcolumn'
  obtain ⟨first, r, rfl, -, hread⟩ := h.reads
  have htaken : TakenForColumn (rulesOf d) (first :: r ++ (casts ++ rest)) ↔
      TakenForColumn (rulesOf d) (ts' ++ rest') := by
    obtain ⟨first', r', rfl, hkind, hr⟩ := hcopies.of_cons
    cases r with
    | nil => simp [columnOfType?] at hread
    | cons u r =>
        obtain ⟨u', r', rfl, hu, -⟩ := hr.of_cons
        exact takenForColumn_congr hkind hu _ _ _
  refine ⟨_, _, _, _, ?_, hcolumn, hcolumn', htaken, fun hfirst =>
    ⟨hfirst.ofTokens_eq hcolumn, (htaken.1 hfirst).ofTokens_eq hcolumn'⟩, fun hnext => ?_⟩
  · rw [settle_keeps (f := Column.name) fun _ => rfl, (foldl_add_column _ _).1]
    exact (columnOfType?_some hread).1
  · exact numbered_nextValue (rulesOf d) source h.operand hnext before rest { column := typed } rfl

/-- The start of a declaration, up to the value of its default. -/
def idStart : List Char := "id bigint NOT NULL DEFAULT nextval('ids')".toList

/-- Its end. -/
def idFinish : List Char := "PRIMARY KEY".toList

/-- Two casts that may stand between them. -/
def idCasts : List Char := "::character varying(9)[]::regclass".toList

/-- The tokens of the value. -/
def idValue : List Token :=
  [⟨.word "nextval", ⟨27, 34⟩⟩, ⟨.lparen, ⟨34, 35⟩⟩, ⟨.stringLit "ids", ⟨35, 40⟩⟩, ⟨.rparen, ⟨40, 41⟩⟩]

/-- The tokens between the type and the word `DEFAULT`. -/
def idBefore : List Token := [⟨.word "NOT", ⟨10, 13⟩⟩, ⟨.word "NULL", ⟨14, 18⟩⟩]

/-- The tokens of the start. -/
def idTokens : List Token :=
  ⟨.word "id", ⟨0, 2⟩⟩ :: ⟨.word "bigint", ⟨3, 9⟩⟩ :: (idBefore ++ ⟨.word "DEFAULT", ⟨19, 26⟩⟩ :: idValue)

/-- The tokens of the casts. -/
def idCastTokens : List Token :=
  [⟨.doubleColon, ⟨41, 43⟩⟩, ⟨.word "character", ⟨43, 52⟩⟩, ⟨.word "varying", ⟨53, 60⟩⟩,
    ⟨.lparen, ⟨60, 61⟩⟩, ⟨.number "9", ⟨61, 62⟩⟩, ⟨.rparen, ⟨62, 63⟩⟩, ⟨.lbracket, ⟨63, 64⟩⟩,
    ⟨.rbracket, ⟨64, 65⟩⟩, ⟨.doubleColon, ⟨65, 67⟩⟩, ⟨.word "regclass", ⟨67, 75⟩⟩]

theorem isCasts_id : IsCasts postgresRules (idCastTokens.map Token.kind) := by
  have hinner : IsBalanced [.number "9"] := rfl
  have hfirst : IsCast postgresRules (.doubleColon :: .word "character" ::
      (["varying"].map .word ++ ([.lparen, .number "9", .rparen] ++
        (List.replicate 1 [.lbracket, .rbracket]).flatten))) :=
    .mk 1 (by decide) (by decide) (.parens hinner)
  have hsecond : IsCast postgresRules (.doubleColon :: .word "regclass" ::
      (([] : List String).map .word ++ ([] ++ (List.replicate 0 [.lbracket, .rbracket]).flatten))) :=
    .mk 0 (by decide) (by decide) .none
  exact ⟨[_, _], rfl, by simpa using ⟨hfirst, hsecond⟩⟩

theorem declaresDefault_id : DeclaresDefault postgresRules (idStart ++ (idCasts ++ ' ' :: idFinish)) "id"
    { name := "id", rawType := "bigint" } idTokens idBefore ⟨.word "DEFAULT", ⟨19, 26⟩⟩ idValue := by
  have hinner : IsBalanced [.stringLit "ids"] := rfl
  have hnotNull : List.Forall₂ Spells [.notNull] [[.word "NOT", .word "NULL"]] :=
    .cons (.notNull (by decide) (by decide)) .nil
  exact
    { named := by decide
      reads := ⟨_, _, rfl, rfl, by decide +kernel⟩
      ends := endsBeforeDefault_clauses hnotNull
      keyword := by decide
      operand := .word "nextval" (.parens hinner) }

theorem sameColumn_id : ∃ c primary unique notices,
    columnDefinition? postgresRules (idStart ++ (idCasts ++ ' ' :: idFinish))
        (idTokens ++ (idCastTokens ++ [⟨.word "PRIMARY", ⟨76, 83⟩⟩, ⟨.word "KEY", ⟨84, 87⟩⟩])) =
      some (.column c primary unique notices) ∧
    columnDefinition? postgresRules (idStart ++ ' ' :: idFinish)
        (idTokens ++ [⟨.word "PRIMARY", ⟨42, 49⟩⟩, ⟨.word "KEY", ⟨50, 53⟩⟩]) =
      some (.column c primary unique notices) ∧ c.autoIncrement ∧ c.defaultValue = none := by
  have hstart : ∀ rest, StandsSomewhere .postgresql (idStart ++ rest) idStart idTokens := fun rest =>
    ⟨[], ⟨List.prefix_append _ _, by decide +kernel⟩⟩
  have hfinish : StandsSomewhere .postgresql (idStart ++ (idCasts ++ ' ' :: idFinish)) idFinish
      [⟨.word "PRIMARY", ⟨76, 83⟩⟩, ⟨.word "KEY", ⟨84, 87⟩⟩] :=
    ⟨idStart ++ idCasts ++ [' '], ⟨⟨[], rfl⟩, by decide +kernel⟩⟩
  have hfinish' : StandsSomewhere .postgresql (idStart ++ ' ' :: idFinish) idFinish
      [⟨.word "PRIMARY", ⟨42, 49⟩⟩, ⟨.word "KEY", ⟨50, 53⟩⟩] :=
    ⟨idStart ++ [' '], ⟨⟨[], rfl⟩, by decide +kernel⟩⟩
  have hrest : StartsWithEnd postgresRules
      [⟨.word "PRIMARY", ⟨76, 83⟩⟩, ⟨.word "KEY", ⟨84, 87⟩⟩] := by
    intro t ht
    obtain rfl := Option.some.inj ht
    exact ⟨"PRIMARY", rfl, by decide⟩
  obtain ⟨c, primary, unique, notices, -, hcasts, hplain, -, -, hnext⟩ := sameColumn_casts
    (hstart _) (hstart _) hfinish hfinish' declaresDefault_id isCasts_id hrest
  obtain ⟨hauto, hnone⟩ := hnext rfl
  have hdefault : attributes postgresRules (idStart ++ (idCasts ++ ' ' :: idFinish))
      [⟨.word "PRIMARY", ⟨76, 83⟩⟩, ⟨.word "KEY", ⟨84, 87⟩⟩] = [.primaryKey] := by decide +kernel
  refine ⟨c, primary, unique, notices, hcasts, hplain, hauto, hnone fun text hmem => ?_⟩
  rw [show attributes (rulesOf .postgresql) _ _ = _ from hdefault] at hmem
  simp at hmem

end Schemata.Sql
