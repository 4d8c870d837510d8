import Mathlib.Data.List.Forall2
import Schemata.Proofs.Sql.Nesting
import Schemata.Sql.Script

/-! # Statements that create tables

A statement creates a table if it starts with `CREATE`, modifiers and `TABLE` (`StartsTable`).  What
follows is perhaps `IF NOT EXISTS`, a name whose parts are joined by points (`Qualifies`), and a body in
parentheses (`Formed`); where the name or the body is missing or the body is not closed, the statement
is `Malformed`.  The tables of a script are those of its statements up to the first malformed one, whose
fault is the error of the script (`tablesOf_cases`). -/

namespace Schemata.Sql

variable {rules : Rules} {source : List Char} {t : Token} {ts r rest after statement body : List Token}
  {names : List String} {name : String}

/-! ### The start of a table -/

/-- Tokens that start with `CREATE`, modifiers and `TABLE`, and what follows these. -/
def StartsTable (statement after : List Token) : Prop :=
  ∃ create modifiers table, statement = create :: (modifiers ++ table :: after) ∧
    create.isKeyword "create" ∧ (∀ t ∈ modifiers, t.isOneOf tableModifiers) ∧ table.isKeyword "table"

/-- A token is one keyword at most. -/
theorem isOneOf_iff {keywords : List String} {keyword : String} (h : t.isKeyword keyword) :
    t.isOneOf keywords ↔ keyword ∈ keywords := by
  simp only [Token.isKeyword, beq_iff_eq] at h
  simp [Token.isOneOf, Token.isKeyword, h]

theorem afterWords_singleton {word : String} :
    afterWords [word] ts = some rest ↔ ∃ t, ts = t :: rest ∧ t.isKeyword word := by
  cases ts with
  | nil => simp [afterWords]
  | cons t ts =>
      by_cases ht : t.isKeyword word
      · simp [afterWords, ht]
      · simp only [afterWords, if_neg ht, List.cons.injEq]
        constructor
        · simp
        · rintro ⟨_, ⟨rfl, -⟩, hu⟩
          exact absurd hu ht

/-- **What follows the start of a table** is what is read after it. -/
theorem afterCreateTable_eq_some : afterCreateTable statement = some after ↔ StartsTable statement after := by
  constructor
  · intro h
    unfold afterCreateTable at h
    split at h
    · rename_i r hr
      obtain ⟨create, rfl, hcreate⟩ := afterWords_singleton.1 hr
      obtain ⟨table, hrest, htable⟩ := afterWords_singleton.1 h
      refine ⟨create, r.takeWhile (·.isOneOf tableModifiers), table, ?_, hcreate, ?_, htable⟩
      · rw [← hrest, List.takeWhile_append_dropWhile]
      · exact fun t ht => List.all_eq_true.1 List.all_takeWhile t ht
    · simp at h
  · rintro ⟨create, modifiers, table, rfl, hcreate, hmodifiers, htable⟩
    have hother : ¬table.isOneOf tableModifiers := by
      rw [isOneOf_iff htable]
      decide
    have hdrop : (modifiers ++ table :: after).dropWhile (·.isOneOf tableModifiers) =
        table :: after := by
      rw [List.dropWhile_append_of_pos hmodifiers]
      exact List.dropWhile_cons_of_neg hother
    rw [afterCreateTable, afterWords_singleton.2 ⟨create, rfl, hcreate⟩]
    dsimp only
    rw [hdrop, afterWords_singleton.2 ⟨table, rfl, htable⟩]

/-- A statement that creates a table. -/
def CreatesTable (statement : List Token) : Prop := ∃ after, StartsTable statement after

theorem createsTable_iff : CreatesTable statement ↔ (afterCreateTable statement).isSome := by
  rw [Option.isSome_iff_exists]
  exact exists_congr fun _ => afterCreateTable_eq_some.symm

instance : DecidablePred CreatesTable := fun _ => decidable_of_iff' _ createsTable_iff

/-- **Whether a table is created** somewhere in the tokens. -/
theorem hasCreateTable_iff : hasCreateTable ts ↔ ∃ statement, statement <:+ ts ∧ CreatesTable statement := by
  induction ts with
  | nil =>
      simp only [hasCreateTable, Bool.false_eq_true, List.suffix_nil, exists_eq_left, false_iff]
      rw [createsTable_iff]
      decide
  | cons t ts ih =>
      rw [hasCreateTable, Bool.or_eq_true, ih, ← createsTable_iff]
      simp only [List.suffix_cons_iff, or_and_right, exists_or, exists_eq_left]

/-! ### Names -/

/-- Identifiers with points between them, as many as there are, and what follows them. -/
inductive Qualifies : List Token → List String → List Token → Prop
  | last {t : Token} {name : String} {rest : List Token} (ht : t.ident? = some name)
      (hrest : ∀ p u r, rest = p :: u :: r → p.kind = .dot → u.ident? = none) :
      Qualifies (t :: rest) [name] rest
  | point {t p : Token} {name : String} {names : List String} {ts rest : List Token}
      (ht : t.ident? = some name) (hp : p.kind = .dot) (h : Qualifies ts names rest) :
      Qualifies (t :: p :: ts) (name :: names) rest

theorem Qualifies.furtherNames (ht : t.ident? = some name) (r : List Token) :
    Qualifies (t :: r) (name :: (furtherNames r).1) (furtherNames r).2 := by
  fun_induction Sql.furtherNames r generalizing t name with
  | case1 p u r name' hu hp names rest hread ih =>
      have := ih hu
      rw [hread] at this
      exact .point ht hp this
  | case2 p u r name' hu hp => exact .last ht fun _ _ _ he hdot => absurd ((List.cons.inj he).1 ▸ hdot) hp
  | case3 p u r hu =>
      refine .last ht fun _ _ _ he _ => ?_
      obtain ⟨-, he⟩ := List.cons.inj he
      exact (List.cons.inj he).1 ▸ hu
  | case4 r hshort => exact .last ht fun p u r' he _ => absurd he (hshort p u r')

/-- **A qualified name is read to its end.** -/
theorem qualifiedName?_eq_some : qualifiedName? ts = some (names, rest) ↔ Qualifies ts names rest := by
  constructor
  · intro h
    unfold qualifiedName? at h
    split at h
    · simp at h
    · obtain ⟨name, hname, he⟩ := Option.map_eq_some_iff.1 h
      obtain ⟨rfl, rfl⟩ := Prod.mk.inj he
      exact .furtherNames hname _
  · intro h
    induction h with
    | @last t name rest ht hrest =>
        have hnone : furtherNames rest = ([], rest) := by
          unfold furtherNames
          split
          · rename_i p u r
            split
            · rename_i hu
              split
              · rename_i hp
                simp [hrest p u r rfl hp] at hu
              · rfl
            · rfl
          · rfl
        simp [qualifiedName?, ht, hnone]
    | @point t p name names ts rest ht hp h ih =>
        cases ts with
        | nil => simp [qualifiedName?] at ih
        | cons u r =>
            obtain ⟨name', hu, he⟩ := Option.map_eq_some_iff.1 ih
            obtain ⟨rfl, rfl⟩ := Prod.mk.inj he
            simp [qualifiedName?, ht, furtherNames, hu, hp]

/-! ### The header and the body of a table -/

/-- The header of a table, without `IF NOT EXISTS`, given what follows `TABLE`. -/
def tableHeader (after : List Token) : List Token :=
  (afterWords ["if", "not", "exists"] after).getD after

/-- A header with a name, which is the last part of a qualified one, and what follows it. -/
def NamesTable (header : List Token) (name : String) (rest : List Token) : Prop :=
  name ≠ "" ∧ ∃ names, Qualifies header names rest ∧ names.getLast? = some name

/-- A statement that creates the table `name` with these tokens as its body and its options. -/
def Formed (statement : List Token) (name : String) (body options : List Token) : Prop :=
  ∃ after t u, StartsTable statement after ∧
    NamesTable (tableHeader after) name (t :: (body ++ u :: options)) ∧
    t.kind = .lparen ∧ IsBalanced (body.map Token.kind) ∧ u.kind = .rparen

/-- What is wrong with a statement that creates a table, and at which byte of the source. -/
inductive Malformed (statement : List Token) : ParseFault → Nat → Prop
  | noName {after : List Token} (hstart : StartsTable statement after)
      (hname : ∀ name rest, ¬NamesTable (tableHeader after) name rest) :
      Malformed statement .missingTableName (offsetIn statement (tableHeader after))
  | noBody {after rest : List Token} {name : String} (hstart : StartsTable statement after)
      (hname : NamesTable (tableHeader after) name rest) (hbody : ∀ t ∈ rest.head?, t.kind ≠ .lparen) :
      Malformed statement (.unbalancedBody .noBody name) (offsetIn statement rest)
  | openBody {after rest : List Token} {t : Token} {name : String}
      (hstart : StartsTable statement after)
      (hname : NamesTable (tableHeader after) name (t :: rest)) (ht : t.kind = .lparen)
      (hopen : ∀ body u options, rest = body ++ u :: options → IsBalanced (body.map Token.kind) →
        u.kind ≠ .rparen) :
      Malformed statement (.unbalancedBody .openBody name) t.span.start

/-- A statement that is malformed in any way. -/
def IsMalformed (statement : List Token) : Prop := ∃ fault offset, Malformed statement fault offset

/-- The name of a table is the last part of the qualified name that is read. -/
theorem namesTable_iff {header : List Token} :
    NamesTable header name rest ↔
      ∃ names, qualifiedName? header = some (names, rest) ∧ names.getLastD "" = name ∧ name ≠ "" := by
  constructor
  · rintro ⟨hne, names, hnames, hlast⟩
    refine ⟨names, qualifiedName?_eq_some.2 hnames, ?_, hne⟩
    rw [List.getLastD_eq_getLast?, hlast, Option.getD_some]
  · rintro ⟨names, hread, hlast, hne⟩
    refine ⟨hne, names, qualifiedName?_eq_some.1 hread, ?_⟩
    cases names with
    | nil => exact absurd hlast.symm hne
    | cons n ns => rw [← hlast, List.getLast?_cons, List.getLastD_cons, List.getLastD_eq_getLast?]

theorem NamesTable.unique {header rest' : List Token} {name' : String} (h : NamesTable header name rest)
    (h' : NamesTable header name' rest') : name = name' ∧ rest = rest' := by
  obtain ⟨names, hread, hlast, -⟩ := namesTable_iff.1 h
  obtain ⟨names', hread', hlast', -⟩ := namesTable_iff.1 h'
  obtain ⟨rfl, rfl⟩ := Prod.mk.inj (Option.some.inj (hread.symm.trans hread'))
  exact ⟨hlast.symm.trans hlast', rfl⟩

theorem StartsTable.unique {after' : List Token} (h : StartsTable statement after)
    (h' : StartsTable statement after') : after = after' :=
  Option.some.inj ((afterCreateTable_eq_some.2 h).symm.trans (afterCreateTable_eq_some.2 h'))

/-- A statement is not both formed and malformed. -/
theorem Formed.not_isMalformed {options : List Token} (h : Formed statement name body options) :
    ¬IsMalformed statement := by
  obtain ⟨after, t, u, hstart, hname, ht, hbody, hu⟩ := h
  rintro ⟨fault, offset, hmalformed⟩
  cases hmalformed with
  | noName hstart' hno =>
      obtain rfl := hstart.unique hstart'
      exact hno _ _ hname
  | noBody hstart' hname' hno =>
      obtain rfl := hstart.unique hstart'
      obtain ⟨rfl, rfl⟩ := hname.unique hname'
      exact hno t rfl ht
  | openBody hstart' hname' _ hopen =>
      obtain rfl := hstart.unique hstart'
      obtain ⟨rfl, he⟩ := hname.unique hname'
      obtain ⟨-, rfl⟩ := List.cons.inj he
      exact hopen body u options rfl hbody hu

/-- Only a statement that creates a table is malformed. -/
theorem IsMalformed.createsTable (h : IsMalformed statement) : CreatesTable statement := by
  obtain ⟨fault, offset, hmalformed⟩ := h
  cases hmalformed with
  | noName hstart => exact ⟨_, hstart⟩
  | noBody hstart => exact ⟨_, hstart⟩
  | openBody hstart => exact ⟨_, hstart⟩

/-- The table that a statement creates. -/
def FormsTable (rules : Rules) (source : List Char) (statement : List Token) (t : Table) : Prop :=
  ∃ name body options, Formed statement name body options ∧
    t = { tableOf rules source name body with tableComment := (optionComment options).getD "" }

/-- **A statement is malformed or forms its table.** -/
theorem createTable_cases (rules : Rules) (source : List Char) (hstart : StartsTable statement after) :
    (∃ fault offset, Malformed statement fault offset ∧
        createTable rules source statement after = .error (.atOffset source offset fault)) ∨
      ∃ t, FormsTable rules source statement t ∧ createTable rules source statement after = .ok t := by
  unfold createTable
  rw [show (afterWords ["if", "not", "exists"] after).getD after = tableHeader after from rfl]
  extract_lets header
  cases hread : qualifiedName? header with
  | none =>
      refine .inl ⟨_, _, .noName hstart ?_, rfl⟩
      intro name rest hnamed
      obtain ⟨names, hread', -⟩ := namesTable_iff.1 hnamed
      exact absurd (hread.symm.trans hread') (by simp)
  | some read =>
      obtain ⟨names, afterName⟩ := read
      dsimp only
      split
      · rename_i hempty
        refine .inl ⟨_, _, .noName hstart ?_, rfl⟩
        intro name rest hnamed
        obtain ⟨names', hread', hlast, hne⟩ := namesTable_iff.1 hnamed
        obtain ⟨rfl, -⟩ := Prod.mk.inj (Option.some.inj (hread.symm.trans hread'))
        exact hne (hlast.symm.trans (by simpa using hempty))
      · rename_i hne
        have hnamed := namesTable_iff.2 ⟨names, hread, rfl, by simpa using hne⟩
        split
        · exact .inl ⟨_, _, .noBody hstart hnamed (by simp), rfl⟩
        · rename_i t r
          split
          · rename_i ht
            split
            · rename_i hnone
              refine .inl ⟨_, _, .openBody hstart hnamed ht ?_, rfl⟩
              intro body u options he hbody hu
              have := closingFrom_one_eq_some.2 ⟨body, u, options, he, rfl, hu, hbody⟩
              simp [hnone] at this
            · rename_i close hclose
              obtain ⟨body, u, options, rfl, rfl, hu, hbody⟩ := closingFrom_one_eq_some.1 hclose
              refine .inr ⟨_, ⟨_, body, options, ⟨after, t, u, hstart, hnamed, ht, hbody, hu⟩, rfl⟩, ?_⟩
              simp
          · rename_i ht
            exact .inl ⟨_, _, .noBody hstart hnamed (by simpa using ht), rfl⟩

/-! ### Scripts -/

/-- **The tables of a script** are those of its statements, unless one of these is malformed: then the
first of them is the error. -/
theorem tablesOf_cases (rules : Rules) (source : List Char) (script : List (List Token)) :
    (∃ before statement rest fault offset, script = before ++ statement :: rest ∧
        (∀ st ∈ before, ¬IsMalformed st) ∧ Malformed statement fault offset ∧
        tablesOf rules source script = .error (.atOffset source offset fault)) ∨
      (∀ st ∈ script, ¬IsMalformed st) ∧ ∃ tables, tablesOf rules source script = .ok tables ∧
        List.Forall₂ (FormsTable rules source) (script.filter (CreatesTable ·)) tables := by
  induction script with
  | nil => exact .inr ⟨by simp, [], rfl, .nil⟩
  | cons statement script ih =>
      rw [tablesOf]
      cases hafter : afterCreateTable statement with
      | none =>
          have hcreates : ¬CreatesTable statement := by
            rw [createsTable_iff, hafter]
            simp
          have hformed : ¬IsMalformed statement := fun hm => hcreates hm.createsTable
          rcases ih with ⟨before, st, rest, fault, offset, rfl, hbefore, hst, herror⟩ |
            ⟨hall, tables, htables, hforms⟩
          · exact .inl ⟨statement :: before, st, rest, fault, offset, rfl,
              List.forall_mem_cons.2 ⟨hformed, hbefore⟩, hst, herror⟩
          · refine .inr ⟨List.forall_mem_cons.2 ⟨hformed, hall⟩, tables, htables, ?_⟩
            simpa [List.filter_cons, hcreates] using hforms
      | some after =>
          have hstart := afterCreateTable_eq_some.1 hafter
          dsimp only
          rcases createTable_cases rules source hstart with
            ⟨fault, offset, hmalformed, hcreate⟩ | ⟨t, hforms, hcreate⟩
          · rw [hcreate]
            exact .inl ⟨[], statement, script, fault, offset, rfl, by simp, hmalformed, rfl⟩
          · rw [hcreate]
            have hformed : ¬IsMalformed statement := by
              obtain ⟨_, _, _, hformed, -⟩ := hforms
              exact hformed.not_isMalformed
            rcases ih with ⟨before, st, rest, fault, offset, rfl, hbefore, hst, herror⟩ |
              ⟨hall, tables, htables, hrest⟩
            · refine .inl ⟨statement :: before, st, rest, fault, offset, rfl, ?_, hst, ?_⟩
              · exact List.forall_mem_cons.2 ⟨hformed, hbefore⟩
              · simp only [herror, Except.map]
            · refine .inr ⟨List.forall_mem_cons.2 ⟨hformed, hall⟩, t :: tables, ?_, ?_⟩
              · simp only [htables, Except.map]
              · have hcreates : CreatesTable statement := ⟨after, hstart⟩
                simpa [List.filter_cons, hcreates] using ⟨hforms, hrest⟩

end Schemata.Sql
