import Schemata.Proofs.Sql.Additions

/-! # Parts of a key

A key or an index of a table (`DefinesKey`) lists its columns in parentheses (`ListsKey`), in parts
between commas (`KeyParts`).  Recorded are the names at the front of the parts, and a part that starts
with something else, an expression in parentheses for one, is passed over (`records_key`).  So every part
is accounted for exactly if all of them start with a name or none does. -/

namespace Schemata.Sql

variable {rules : Rules} {ts tokens rest list : List Token} {parts : List (List Token)} {t : Table}
  {n : Nat}

/-! ### Keys -/

/-- What a definition that is no column can be recorded as. -/
inductive KeyKind
  | primaryKey
  | unique
  | index
deriving DecidableEq, Repr

/-- The definition of a key with the given names. -/
def KeyKind.definition : KeyKind → List String → Definition
  | .primaryKey => .primaryKey
  | .unique => .unique
  | .index => .index

/-- The key as it is skipped. -/
def KeyKind.skipped : KeyKind → SkippedDefinition
  | .primaryKey => .primaryKey
  | .unique => .unique
  | .index => .index

/-- Tokens that start with the words of a key, and what follows these. -/
inductive StartsKey (rules : Rules) : List Token → KeyKind → List Token → Prop
  | primaryKey {primary key : Token} {rest : List Token} (hprimary : primary.isKeyword "primary")
      (hkey : key.isKeyword "key") : StartsKey rules (primary :: key :: rest) .primaryKey rest
  | unique {unique : Token} {rest : List Token} (hunique : unique.isKeyword "unique") :
      StartsKey rules (unique :: rest) .unique rest
  | index {index : Token} {rest : List Token} (hindex : index.isOneOf indexWords)
      (hrules : rules.tableIndexes) : StartsKey rules (index :: rest) .index rest

/-- A definition of a key, and what follows its first words: alone, after `CONSTRAINT`, or after
`CONSTRAINT` and a name. -/
inductive DefinesKey (rules : Rules) : List Token → KeyKind → List Token → Prop
  | bare {ts rest : List Token} {kind : KeyKind} (h : StartsKey rules ts kind rest) :
      DefinesKey rules ts kind rest
  | unnamed {constraint : Token} {ts rest : List Token} {kind : KeyKind}
      (hconstraint : constraint.isKeyword "constraint") (hbody : startsWithOneOf constraintBodyWords ts)
      (h : StartsKey rules ts kind rest) : DefinesKey rules (constraint :: ts) kind rest
  | named {constraint name : Token} {ts rest : List Token} {kind : KeyKind}
      (hconstraint : constraint.isKeyword "constraint") (hname : name.isOneOf constraintBodyWords = false)
      (h : StartsKey rules ts kind rest) : DefinesKey rules (constraint :: name :: ts) kind rest

/-- The tokens in the first parentheses. -/
def ListsKey (tokens list : List Token) : Prop :=
  ∃ before opening closing after, tokens = before ++ opening :: (list ++ closing :: after) ∧
    (∀ t ∈ before, t.kind ≠ .lparen) ∧ opening.kind = .lparen ∧ closing.kind = .rparen ∧
    IsBalanced (list.map Token.kind)

theorem isOneOf_eq_true {token : Token} {words : List String} :
    token.isOneOf words ↔ ∃ word ∈ words, token.isKeyword word := by
  simp [Token.isOneOf]

theorem kind_of_isKeyword {token : Token} {word : String} (h : token.isKeyword word) :
    ∃ text, token.kind = .word text := by
  cases hk : token.kind <;> simp_all [Token.isKeyword, Token.keyword?, Token.word?]

theorem keyNames?_cons {token : Token} (h : token.kind ≠ .lparen) (tokens : List Token) :
    keyNames? (token :: tokens) = keyNames? tokens := by
  rw [keyNames?, keyNames?, List.dropWhile_cons_of_pos (by simpa using h)]

/-- A word that starts an index starts nothing else. -/
theorem isKeyword_of_index {index : Token} (h : index.isOneOf indexWords) :
    ∀ word ∉ indexWords, index.isKeyword word = false := by
  intro word hword
  obtain ⟨keyword, hmem, hkeyword⟩ := isOneOf_eq_true.1 h
  simp only [Token.isKeyword, beq_iff_eq.1 hkeyword, beq_eq_false_iff_ne, ne_eq, Option.some.injEq]
  rintro rfl
  exact hword hmem

theorem startsIndex_cons {index : Token} (h : index.isOneOf indexWords) (hrules : rules.tableIndexes)
    (rest : List Token) : startsIndex rules (index :: rest) := by
  simp [startsIndex, startsWithOneOf, h, hrules]

/-- A key is a constraint of the table and no column. -/
theorem startsTableConstraint_of_startsKey {kind : KeyKind} (h : StartsKey rules ts kind rest) :
    startsTableConstraint rules ts ∧ afterWords ["constraint"] ts = none := by
  cases h with
  | primaryKey hprimary hkey =>
      have hword := beq_iff_eq.1 hprimary
      simp [startsTableConstraint, afterWords, startsWithOneOf, Token.isOneOf, Token.isKeyword, hword,
        beq_iff_eq.1 hkey]
  | unique hunique =>
      have hword := beq_iff_eq.1 hunique
      simp [startsTableConstraint, afterWords, Token.isOneOf, Token.isKeyword, hword]
  | @index index rest hindex hrules =>
      have hother := isKeyword_of_index hindex
      simp [startsTableConstraint, afterWords, Token.isOneOf, hother, indexWords,
        startsIndex_cons hindex hrules]

theorem tableConstraint_of_startsKey {kind : KeyKind} (h : StartsKey rules ts kind rest) (text : String) :
    tableConstraint rules text ts = keyed kind.definition kind.skipped text rest := by
  cases h with
  | primaryKey hprimary hkey =>
      simp [tableConstraint, afterWords, hprimary, hkey, KeyKind.definition, KeyKind.skipped]
  | unique hunique =>
      have hword := beq_iff_eq.1 hunique
      simp [tableConstraint, afterWords, Token.isKeyword, hword, KeyKind.definition, KeyKind.skipped]
  | @index index rest hindex hrules =>
      obtain ⟨_, -, hkeyword⟩ := isOneOf_eq_true.1 hindex
      obtain ⟨text', hkind⟩ := kind_of_isKeyword hkeyword
      have hnames : keyNames? (index :: rest) = keyNames? rest := keyNames?_cons (by simp [hkind]) rest
      have hother := isKeyword_of_index hindex
      simp [tableConstraint, afterWords, hother, indexWords, startsIndex_cons hindex hrules, keyed, hnames,
        KeyKind.definition, KeyKind.skipped]

theorem ofTokens_of_definesKey {kind : KeyKind} (h : DefinesKey rules tokens kind rest)
    (source : List Char) :
    Definition.ofTokens rules source tokens =
      keyed kind.definition kind.skipped (sourceText source tokens) rest := by
  cases h with
  | bare h =>
      obtain ⟨hstarts, hconstraint⟩ := startsTableConstraint_of_startsKey h
      rw [← tableConstraint_of_startsKey h]
      simp [Definition.ofTokens, hconstraint, hstarts]
  | unnamed hconstraint hbody h =>
      rw [← tableConstraint_of_startsKey h]
      simp [Definition.ofTokens, afterWords, hconstraint, hbody]
  | named hconstraint hname h =>
      rw [← tableConstraint_of_startsKey h]
      simp [Definition.ofTokens, afterWords, hconstraint, startsWithOneOf, hname]

/-! ### Parts -/

/-- A list that commas outside parentheses divide into parts, which may be empty. -/
inductive Separates : List Token → List (List Token) → Prop
  | last {part : List Token} (hpart : IsPart (part.map Token.kind)) : Separates part [part]
  | comma {part rest : List Token} {comma : Token} {parts : List (List Token)}
      (hpart : IsPart (part.map Token.kind)) (hcomma : comma.kind = .comma) (h : Separates rest parts) :
      Separates (part ++ comma :: rest) (part :: parts)

/-- The parts of a list of columns; there is none where nothing stands between two commas. -/
def KeyParts (list : List Token) (parts : List (List Token)) : Prop :=
  ∃ all, Separates list all ∧ parts = all.filter (!·.isEmpty)

/-- The name that a part of a key starts with. -/
def partName? (part : List Token) : Option String := part.head?.bind Token.ident?

theorem Separates.partsFrom_eq (h : Separates list parts) : partsFrom 0 list = parts := by
  induction h with
  | @last part hpart =>
      have := partsFrom_append [] hpart
      rw [List.append_nil] at this
      simp [this, partsFrom, beforeFirst]
  | comma hpart hcomma h ih =>
      rw [partsFrom_append _ hpart, partsFrom, if_pos ⟨hcomma, rfl⟩, ih]
      simp [beforeFirst]

/-- What comes before the first comma outside parentheses. -/
theorem exists_firstPart (h : depthThrough false n (list.map Token.kind) = some 0) :
    ∃ part, depthThrough true n (part.map Token.kind) = some 0 ∧
      (list = part ∨ ∃ comma rest, list = part ++ comma :: rest ∧ comma.kind = .comma ∧
        IsBalanced (rest.map Token.kind)) := by
  induction list generalizing n with
  | nil => exact ⟨[], h, .inl rfl⟩
  | cons t list ih =>
      have step : ∀ {m}, depthThrough false m (list.map Token.kind) = some 0 →
          (∀ ks, depthThrough true n (t.kind :: ks) = depthThrough true m ks) →
          ∃ part, depthThrough true n (part.map Token.kind) = some 0 ∧
            (t :: list = part ∨ ∃ comma rest, t :: list = part ++ comma :: rest ∧ comma.kind = .comma ∧
              IsBalanced (rest.map Token.kind)) := by
        intro m hm hdepth
        obtain ⟨part, hpart, hlist⟩ := ih hm
        refine ⟨t :: part, by rw [List.map_cons, hdepth, hpart], ?_⟩
        rcases hlist with rfl | ⟨comma, rest, rfl, hcomma, hrest⟩
        · exact .inl rfl
        · exact .inr ⟨comma, rest, rfl, hcomma, hrest⟩
      rw [List.map_cons] at h
      cases hk : t.kind with
      | lparen =>
          rw [hk] at h step
          exact step h fun _ => rfl
      | rparen =>
          rw [hk] at h step
          cases n with
          | zero => simp [depthThrough] at h
          | succ n => exact step h fun _ => rfl
      | comma =>
          rw [hk] at h step
          cases n with
          | zero => exact ⟨[], rfl, .inr ⟨t, list, rfl, hk, h⟩⟩
          | succ n => exact step h fun _ => by simp [depthThrough]
      | _ =>
          rw [hk] at h step
          exact step h fun _ => rfl

theorem exists_separates (h : IsBalanced (list.map Token.kind)) : ∃ parts, Separates list parts := by
  induction hn : list.length using Nat.strongRecOn generalizing list with
  | _ n ih =>
    obtain ⟨part, hpart, rfl | ⟨comma, rest, rfl, hcomma, hrest⟩⟩ := exists_firstPart h
    · exact ⟨[list], .last hpart⟩
    · obtain ⟨parts, hparts⟩ := ih rest.length (by simp [← hn]; omega) hrest rfl
      exact ⟨part :: parts, .comma hpart hcomma hparts⟩

/-- **The parts of a list are those it is split into.** -/
theorem keyParts_iff (h : IsBalanced (list.map Token.kind)) :
    KeyParts list parts ↔ parts = splitDefinitions list := by
  constructor
  · rintro ⟨all, hall, rfl⟩
    rw [splitDefinitions, hall.partsFrom_eq]
  · rintro rfl
    obtain ⟨all, hall⟩ := exists_separates h
    exact ⟨all, hall, by rw [splitDefinitions, hall.partsFrom_eq]⟩

theorem keyNames?_of_listsKey (h : ListsKey rest list) :
    keyNames? rest = match (splitDefinitions list).filterMap partName? with
      | [] => none
      | names => some names := by
  obtain ⟨before, opening, closing, after, rfl, hbefore, hopening, hclosing, hlist⟩ := h
  have hfirst : (before ++ opening :: (list ++ closing :: after)).dropWhile (·.kind ≠ .lparen) =
      opening :: (list ++ closing :: after) := by
    rw [List.dropWhile_append_of_pos (by simpa using hbefore), List.dropWhile_cons_of_neg (by simp [hopening])]
  rw [keyNames?, hfirst, parenGroup?_group hopening hclosing hlist]
  rfl

/-! ### What is recorded -/

/-- A key with the given names is recorded after those before, and nothing else is changed. -/
def Records (before after : Table) (names : List String) : KeyKind → Prop
  | .primaryKey => after = { before with primaryKeys := before.primaryKeys ++ names }
  | .unique => after = { before with uniqueKeys := before.uniqueKeys ++ [names] }
  | .index => after = { before with indexes := before.indexes ++ [names] }

/-- A warning is added, and nothing else is changed. -/
def Warns (before after : Table) (warning : String) : Prop :=
  after = { before with warnings := before.warnings ++ [warning] }

/-- Each part of a key is recorded under a name that it starts with, or else there is a warning. -/
def Accounted (kind : KeyKind) (parts : List (List Token)) (before after : Table) : Prop :=
  (∃ names, Records before after names kind ∧
    List.Forall₂ (fun part name => partName? part = some name) parts names) ∨
    ∃ warning, Warns before after warning

variable {before after : Table} {names : List String} {kind : KeyKind} {warning : String}

theorem Records.not_warns (h : Records before after names kind) : ¬Warns before after warning := by
  intro hwarns
  have := congrArg Table.warnings hwarns
  cases kind <;> simp_all [Records]

theorem forall₂_partName? :
    List.Forall₂ (fun part name => partName? part = some name) parts names ↔
      names = parts.filterMap partName? ∧ ∀ part ∈ parts, (partName? part).isSome := by
  induction parts generalizing names with
  | nil => simp
  | cons part parts ih =>
      rw [List.forall₂_cons_left_iff]
      cases hname : partName? part with
      | none => simp [hname]
      | some name => simp [hname, ih, and_comm]

/-- What is recorded accounts for a list exactly if each part has a name. -/
theorem Records.accounted_iff (h : Records before after names kind)
    (hnames : parts.filterMap partName? = names) :
    Accounted kind parts before after ↔ ∀ part ∈ parts, (partName? part).isSome := by
  constructor
  · rintro (⟨others, -, hothers⟩ | ⟨warning, hwarns⟩)
    · exact (forall₂_partName?.1 hothers).2
    · exact absurd hwarns h.not_warns
  · exact fun hall => .inl ⟨_, h, forall₂_partName?.2 ⟨hnames.symm, hall⟩⟩

/-- **A key is recorded with the names at the front of its parts.**  A part that starts with no name is
passed over unless all are, so that each part is accounted for exactly if all of them start with a name
or none does. -/
theorem records_key (d : Dialect) (source : List Char) (t : Table)
    (hkey : DefinesKey (rulesOf d) tokens kind rest) (hlist : ListsKey rest list) :
    ∃ parts, (∀ other, KeyParts list other ↔ other = parts) ∧
      (parts.filterMap partName? = [] → Warns t (t.add (Definition.ofTokens (rulesOf d) source tokens))
        (kind.skipped.message ++ ": " ++ sourceText source tokens)) ∧
      (parts.filterMap partName? ≠ [] → Records t (t.add (Definition.ofTokens (rulesOf d) source tokens))
        (parts.filterMap partName?) kind) ∧
      (Accounted kind parts t (t.add (Definition.ofTokens (rulesOf d) source tokens)) ↔
        (∀ part ∈ parts, (partName? part).isSome) ∨ ∀ part ∈ parts, partName? part = none) := by
  have hadd : t.add (Definition.ofTokens (rulesOf d) source tokens) =
      t.add (keyed kind.definition kind.skipped (sourceText source tokens) rest) :=
    congrArg t.add (ofTokens_of_definesKey hkey source)
  have hnames := keyNames?_of_listsKey hlist
  obtain ⟨_, _, _, _, _, _, _, _, hbalanced⟩ := id hlist
  rw [hadd, keyed, hnames]
  refine ⟨splitDefinitions list, fun other => keyParts_iff hbalanced, ?_⟩
  cases hrecorded : (splitDefinitions list).filterMap partName? with
  | nil =>
      have hwarns : Warns t (t.add (.skipped (.skipped kind.skipped (sourceText source tokens))))
          (kind.skipped.message ++ ": " ++ sourceText source tokens) := rfl
      refine ⟨fun _ => hwarns, fun hne => absurd rfl hne, ?_⟩
      exact iff_of_true (.inr ⟨_, hwarns⟩) (.inr (List.filterMap_eq_nil_iff.1 hrecorded))
  | cons name names =>
      have hrecords : Records t (t.add (kind.definition (name :: names))) (name :: names) kind := by
        cases kind <;> rfl
      have hsome : ¬∀ part ∈ splitDefinitions list, partName? part = none := fun hnone => by
        simp [List.filterMap_eq_nil_iff.2 hnone] at hrecorded
      refine ⟨fun hnil => absurd hnil (by simp), fun _ => hrecords, ?_⟩
      exact (hrecords.accounted_iff hrecorded).trans (or_iff_left hsome).symm

/-- The list `a, (b + 1)`. -/
def sumList : List Token :=
  [⟨.word "a", ⟨8, 9⟩⟩, ⟨.comma, ⟨9, 10⟩⟩, ⟨.lparen, ⟨11, 12⟩⟩, ⟨.word "b", ⟨12, 13⟩⟩,
    ⟨.symbol '+', ⟨14, 15⟩⟩, ⟨.number "1", ⟨16, 17⟩⟩, ⟨.rparen, ⟨17, 18⟩⟩]

/-- The key `UNIQUE (a, (b + 1))`. -/
def sumKey : List Token :=
  ⟨.word "UNIQUE", ⟨0, 6⟩⟩ :: ⟨.lparen, ⟨7, 8⟩⟩ :: (sumList ++ [⟨.rparen, ⟨18, 19⟩⟩])

/-- A table without columns. -/
def blankTable : Table := { dialect := .mysql, name := "t" }

/-- The key has two parts and is recorded with one name. -/
theorem records_sumKey :
    tokenize mysqlRules "UNIQUE (a, (b + 1))".toList = .ok sumKey ∧
      ∃ parts, KeyParts sumList parts ∧ parts.length = 2 ∧
        Records blankTable
          (blankTable.add (Definition.ofTokens mysqlRules "UNIQUE (a, (b + 1))".toList sumKey)) ["a"]
          .unique := by
  have hkey : DefinesKey (rulesOf .mysql) sumKey .unique (sumKey.drop 1) := .bare (.unique (by decide))
  have hlist : ListsKey (sumKey.drop 1) sumList :=
    ⟨[], ⟨.lparen, ⟨7, 8⟩⟩, ⟨.rparen, ⟨18, 19⟩⟩, [], rfl, by simp, rfl, rfl, rfl⟩
  obtain ⟨parts, hparts, -, hrecords, -⟩ :=
    records_key .mysql "UNIQUE (a, (b + 1))".toList blankTable hkey hlist
  have hbalanced : IsBalanced (sumList.map Token.kind) := rfl
  have hsplit : splitDefinitions sumList = parts := (hparts _).1 ((keyParts_iff hbalanced).2 rfl)
  have hnames : parts.filterMap partName? = ["a"] := by
    rw [← hsplit]
    decide
  rw [hnames] at hrecords
  refine ⟨by decide +kernel, parts, (hparts parts).2 rfl, ?_, hrecords (by simp)⟩
  rw [← hsplit]
  decide

/-- The key on two parts becomes the stricter key on the column `a` alone, and there is no warning. -/
theorem sum_passed_over :
    parseAll .mysql "CREATE TABLE t (a int, b int, UNIQUE (a, (b + 1)))" = .ok
      [{ dialect := .mysql
         name := "t"
         columns := [{ name := "a", rawType := "int" }, { name := "b", rawType := "int" }]
         uniqueKeys := [["a"]]
         warnings := [] }] := by
  decide +kernel

end Schemata.Sql
