import Schemata.Proofs.Sql.Statements

/-! # Where tables come from

Every table of a script is made from the body of a statement, which is a run of the tokens of the
source, and is then changed by comments and warnings only (`forall_of_parseAll`).  So every column is
declared by a run of the tokens (`exists_declares`), and what the reading of types and attributes
keeps holds of it (`forall_columns_of_parseAll`). -/

namespace Schemata.Table

/-- A table with one more warning. -/
def warned (t : Table) (notice : Notice) : Table :=
  { t with warnings := t.warnings ++ [notice.message] }

end Schemata.Table

namespace Schemata.Sql

open Schemata.Text

variable {rules : Rules} {d : Dialect} {source : List Char} {t : Token} {ts part : List Token}
  {parts : List (List Token)}

/-! ### Runs of tokens -/

/-- The first of these lists starts the tokens, and all of them are runs of the tokens. -/
def RunsOf (ts : List Token) (parts : List (List Token)) : Prop :=
  (∀ part ∈ parts.head?, part <+: ts) ∧ ∀ part ∈ parts, part <:+: ts

theorem RunsOf.separator (h : RunsOf ts parts) (t : Token) : RunsOf (t :: ts) ([] :: parts) := by
  refine ⟨by simp, fun part hpart => ?_⟩
  rcases List.mem_cons.1 hpart with rfl | hpart
  · exact List.nil_infix
  · exact List.infix_cons (h.2 part hpart)

theorem RunsOf.cons (h : RunsOf ts (part :: parts)) (t : Token) :
    RunsOf (t :: ts) ((t :: part) :: parts) := by
  have hfirst : t :: part <+: t :: ts := List.cons_prefix_cons.2 ⟨rfl, h.1 part rfl⟩
  refine ⟨by simpa using hfirst, fun part' hpart => ?_⟩
  rcases List.mem_cons.1 hpart with rfl | hpart
  · exact hfirst.isInfix
  · exact List.infix_cons (h.2 part' (by simp [hpart]))

theorem runsOf_nil : RunsOf [] [[]] := by
  simp [RunsOf]

theorem runsOf_first (t : Token) (ts : List Token) : RunsOf (t :: ts) [[t]] := by
  have hfirst : [t] <+: t :: ts := List.prefix_append [t] ts
  exact ⟨by simp, by simpa using hfirst.isInfix⟩

theorem runsOf_partsFrom (depth : Nat) (ts : List Token) : RunsOf ts (partsFrom depth ts) := by
  induction ts generalizing depth with
  | nil => exact runsOf_nil
  | cons t ts ih =>
      rw [partsFrom]
      split
      · exact (ih depth).separator t
      · have hrest := ih (depthAfter depth t)
        split
        · exact runsOf_first t ts
        · rename_i heq
          rw [heq] at hrest
          exact hrest.cons t

theorem runsOf_split (ts : List Token) : RunsOf ts (statements.split ts) := by
  induction ts with
  | nil => exact runsOf_nil
  | cons t ts ih =>
      rw [statements.split]
      split
      · exact ih.separator t
      · split
        · exact runsOf_first t ts
        · rename_i heq
          rw [heq] at ih
          exact ih.cons t

/-- A definition is a run of the tokens of the body. -/
theorem infix_of_mem_splitDefinitions (h : part ∈ splitDefinitions ts) : part <:+: ts :=
  (runsOf_partsFrom 0 ts).2 part (List.mem_filter.1 h).1

/-- A statement is a run of the tokens of the script. -/
theorem infix_of_mem_statements (h : part ∈ statements ts) : part <:+: ts :=
  (runsOf_split ts).2 part (List.mem_filter.1 h).1

theorem afterCreateTable_suffix {rest : List Token} (h : afterCreateTable ts = some rest) :
    rest <:+ ts := by
  unfold afterCreateTable at h
  split at h
  · exact (afterWords_suffix h).trans
      ((List.dropWhile_suffix _).trans (afterWords_suffix ‹_›))
  · simp at h

/-! ### Created tables -/

/-- A table as the statement leaves it that creates it: it is made from a run of the tokens, and may
have a comment. -/
def Created (rules : Rules) (source : List Char) (tokens : List Token) (t : Table) : Prop :=
  ∃ name body comment, name ≠ "" ∧ body <:+: tokens ∧
    t = { tableOf rules source name body with tableComment := comment }

theorem Created.mono {us : List Token} {t : Table} (h : Created rules source ts t) (hts : ts <:+: us) :
    Created rules source us t := by
  obtain ⟨name, body, comment, hname, hbody, rfl⟩ := h
  exact ⟨name, body, comment, hname, hbody.trans hts, rfl⟩

/-- What a statement forms is made from a run of its tokens. -/
theorem FormsTable.created {statement : List Token} {t : Table}
    (h : FormsTable rules source statement t) : Created rules source statement t := by
  obtain ⟨name, body, options, ⟨after, u, v, hstart, ⟨hne, names, hnames, -⟩, -⟩, rfl⟩ := h
  have hafter : after <:+ statement := afterCreateTable_suffix (afterCreateTable_eq_some.2 hstart)
  have hheader : tableHeader after <:+ statement :=
    (afterWords_getD_suffix (List.suffix_refl _)).trans hafter
  have hrest : body ++ v :: options <:+ statement :=
    (List.suffix_cons _ _).trans ((qualifiedName?_suffix (qualifiedName?_eq_some.2 hnames)).trans hheader)
  exact ⟨name, body, _, hne, (List.prefix_append _ _).isInfix.trans hrest.isInfix, rfl⟩

theorem map_eq_of_forall₂ {α β γ : Type} {f : α → γ} {g : β → γ} {l : List α} {l' : List β}
    (h : List.Forall₂ (fun a b => f a = g b) l l') : l.map f = l'.map g := by
  induction h with
  | nil => rfl
  | cons he _ ih => rw [List.map_cons, List.map_cons, he, ih]

theorem exists_of_forall₂ {α β : Type} {R : α → β → Prop} {l : List α} {l' : List β}
    (h : List.Forall₂ R l l') : ∀ b ∈ l', ∃ a ∈ l, R a b := by
  induction h with
  | nil => simp
  | cons hab _ ih =>
      intro b hb
      rcases List.mem_cons.1 hb with rfl | hb
      · exact ⟨_, by simp, hab⟩
      · obtain ⟨a, ha, hr⟩ := ih b hb
        exact ⟨a, by simp [ha], hr⟩

theorem created_of_tablesOf {script : List (List Token)} {tables : List Table}
    (h : tablesOf rules source script = .ok tables) :
    ∀ t ∈ tables, ∃ statement ∈ script, Created rules source statement t := by
  rcases tablesOf_cases rules source script with
    ⟨_, _, _, _, _, -, -, -, herror⟩ | ⟨-, formed, hok, hforms⟩
  · rw [herror] at h
    simp at h
  · obtain rfl : formed = tables := Except.ok.inj (hok.symm.trans h)
    intro t ht
    obtain ⟨statement, hst, hform⟩ := exists_of_forall₂ hforms t ht
    exact ⟨statement, (List.mem_filter.1 hst).1, hform.created⟩

/-! ### Comments and warnings -/

theorem mem_modify {α : Type} {f : α → α} {p : α → Prop} (hf : ∀ a, p a → p (f a)) {l : List α}
    (h : ∀ a ∈ l, p a) (i : Nat) : ∀ a ∈ l.modify i f, p a := by
  induction l generalizing i with
  | nil => simp
  | cons b l ih =>
      cases i with
      | zero =>
          intro a ha
          rcases List.mem_cons.1 ha with rfl | ha
          · exact hf _ (h _ (by simp))
          · exact h a (by simp [ha])
      | succ i =>
          intro a ha
          rcases List.mem_cons.1 ha with rfl | ha
          · exact h _ (by simp)
          · exact ih (fun c hc => h c (by simp [hc])) i a ha

theorem forall₂_modify {α β : Type} {R : α → β → Prop} {f : α → α} {g : β → β} {l : List α}
    {l' : List β} (hfg : ∀ a b, R a b → R (f a) (g b)) (h : List.Forall₂ R l l') (i : Nat) :
    List.Forall₂ R (l.modify i f) (l'.modify i g) := by
  induction h generalizing i with
  | nil => simp
  | cons hab hrest ih =>
      cases i with
      | zero => exact .cons (hfg _ _ hab) hrest
      | succ i => exact .cons hab (ih i)

/-- What comments and warnings keep is kept by comments among tables. -/
theorem forall_applyAmong {P : Table → Prop}
    (hcomment : ∀ (comment : Comment) t, P t → P (comment.applyTo t))
    (hwarn : ∀ (t : Table) name, P t → P (t.warned (.commentOnUnknownTable name)))
    (comments : List Comment) {tables : List Table} (h : ∀ t ∈ tables, P t) :
    ∀ t ∈ comments.foldl (fun ts c => c.applyAmong ts) tables, P t := by
  induction comments generalizing tables with
  | nil => exact h
  | cons comment comments ih =>
      refine ih ?_
      unfold Comment.applyAmong
      dsimp only
      split
      · exact mem_modify (hcomment comment) h _
      · exact mem_modify (fun t ht => hwarn t _ ht) h _

/-- A script that gives tables has tokens, which give them. -/
theorem tokens_of_parseAll {script : String} {tables : List Table} (h : parseAll d script = .ok tables) :
    ∃ tokens, tokenize (rulesOf d) script.toList = .ok tokens ∧
      tablesOfTokens (rulesOf d) script.toList tokens = .ok tables := by
  unfold parseAll at h
  dsimp only at h
  split at h
  · exact ⟨_, ‹_›, h⟩
  · simp at h

/-- **What holds of created tables holds of all tables of a script** if comments and warnings keep
it. -/
theorem forall_of_parseAll {P : Table → Prop} {script : String} {tables : List Table}
    (h : parseAll d script = .ok tables)
    (hcreated : ∀ tokens, tokenize (rulesOf d) script.toList = .ok tokens →
      ∀ t, Created (rulesOf d) script.toList tokens t → P t)
    (hcomment : (rulesOf d).commentStatements → ∀ (comment : Comment) t, P t → P (comment.applyTo t))
    (hwarn : ∀ (t : Table) name, P t → P (t.warned (.commentOnUnknownTable name))) :
    ∀ t ∈ tables, P t := by
  obtain ⟨tokens, htokens, h⟩ := tokens_of_parseAll h
  unfold tablesOfTokens at h
  dsimp only at h
  split at h
  · simp at h
  · simp at h
  · rename_i created _ hall
    obtain rfl := Except.ok.inj h
    have hbefore : ∀ t ∈ created, P t := by
      intro t ht
      obtain ⟨statement, hst, hmade⟩ := created_of_tablesOf hall t ht
      exact hcreated tokens htokens t (hmade.mono (infix_of_mem_statements hst))
    unfold commentsOf
    split
    · exact forall_applyAmong (hcomment ‹_›) hwarn _ hbefore
    · exact hbefore

/-! ### Definitions -/

/-- How tokens declare the column `c`: a name is followed by a type, which leaves `tail` and makes the
column `typed`, and to that the attributes of the tail are added. -/
structure Declares (rules : Rules) (source : List Char) (tokens tail : List Token)
    (typed c : Column) : Prop where
  reads : ∃ first r name, tokens = first :: r ∧ first.ident? = some name ∧ name ≠ "" ∧
    columnOfType? rules source name r = some (typed, tail)
  settled : c = Declaration.settle rules
    ((attributes rules source tail).foldl Declaration.add { column := typed }).column

/-- A column is defined by a declaration, whose keys and notices are those of its attributes. -/
theorem columnDefinition?_eq_some {tokens : List Token} {definition : Definition}
    (h : columnDefinition? rules source tokens = some definition) :
    ∃ tail typed c declaration, Declares rules source tokens tail typed c ∧
      declaration = (attributes rules source tail).foldl Declaration.add { column := typed } ∧
      definition = .column c declaration.primary declaration.unique
        (declaration.notices ++ Declaration.typeNotices rules c) := by
  unfold columnDefinition? at h
  split at h
  · simp at h
  · rename_i first r
    split at h
    · simp at h
    · rename_i name hname
      split at h
      · simp at h
      · rename_i hne
        obtain ⟨⟨typed, tail⟩, htype, rfl⟩ := Option.map_eq_some_iff.1 h
        exact ⟨tail, typed, _, _,
          ⟨⟨first, r, name, rfl, hname, by simpa using hne, htype⟩, rfl⟩, rfl, rfl⟩

/-- **What the declaration of a column is**: a name, a type and attributes. -/
theorem declares_of_columnDefinition? {tokens : List Token} {definition : Definition}
    (h : columnDefinition? rules source tokens = some definition) :
    ∃ tail typed c primary unique notices, Declares rules source tokens tail typed c ∧
      definition = .column c primary unique notices := by
  obtain ⟨tail, typed, c, declaration, hdeclares, -, rfl⟩ := columnDefinition?_eq_some h
  exact ⟨tail, typed, c, _, _, _, hdeclares, rfl⟩

/-- A key with its names, or none. -/
theorem keyed_cases (key : List String → Definition) (what : SkippedDefinition) (text : String)
    (tokens : List Token) :
    (∃ names, names ≠ [] ∧ keyed key what text tokens = key names) ∨
      ∃ notice, keyed key what text tokens = .skipped notice := by
  unfold keyed
  split
  · rename_i names hnames
    refine .inl ⟨names, ?_, rfl⟩
    unfold keyNames? at hnames
    split at hnames
    · simp at hnames
    · split at hnames
      · simp at hnames
      · rename_i hne
        obtain rfl := Option.some.inj hnames
        exact fun he => hne he
  · exact .inr ⟨_, rfl⟩

/-- **What a constraint of a table declares**: a key or an index with its names, or nothing. -/
theorem tableConstraint_cases (rules : Rules) (text : String) (tokens : List Token) :
    (∃ names, names ≠ [] ∧ (tableConstraint rules text tokens = .primaryKey names ∨
        tableConstraint rules text tokens = .unique names ∨
        rules.tableIndexes ∧ tableConstraint rules text tokens = .index names)) ∨
      ∃ notice, tableConstraint rules text tokens = .skipped notice := by
  unfold tableConstraint
  split
  · rcases keyed_cases .primaryKey .primaryKey text _ with ⟨names, hne, h⟩ | h
    · exact .inl ⟨names, hne, .inl h⟩
    · exact .inr h
  · rcases keyed_cases .unique .unique text _ with ⟨names, hne, h⟩ | h
    · exact .inl ⟨names, hne, .inr (.inl h)⟩
    · exact .inr h
  · split
    · rename_i hindex
      have hrules : rules.tableIndexes := by
        unfold startsIndex at hindex
        exact (Bool.and_eq_true_iff.1 hindex).1
      rcases keyed_cases .index .index text tokens with ⟨names, hne, h⟩ | h
      · exact .inl ⟨names, hne, .inr (.inr ⟨hrules, h⟩)⟩
      · exact .inr h
    · exact .inr ⟨_, rfl⟩

/-- **What a definition declares**: what a constraint of the table does, or a column, or nothing. -/
theorem ofTokens_cases (rules : Rules) (source : List Char) (tokens : List Token) :
    (∃ text us, Definition.ofTokens rules source tokens = tableConstraint rules text us) ∨
      (∃ c primary unique notices,
        Definition.ofTokens rules source tokens = .column c primary unique notices ∧
          columnDefinition? rules source tokens = some (.column c primary unique notices)) ∨
      ∃ notice, Definition.ofTokens rules source tokens = .skipped notice := by
  unfold Definition.ofTokens
  dsimp only
  split
  · exact .inl ⟨_, _, rfl⟩
  · split
    · exact .inl ⟨_, _, rfl⟩
    · cases hd : columnDefinition? rules source tokens with
      | none => exact .inr (.inr ⟨_, rfl⟩)
      | some definition =>
          obtain ⟨_, _, c, primary, unique, notices, -, rfl⟩ := declares_of_columnDefinition? hd
          exact .inr (.inl ⟨c, primary, unique, notices, rfl, rfl⟩)

/-- A definition that is a column is the declaration of a column. -/
theorem columnDefinition?_of_ofTokens {tokens : List Token} {c : Column} {primary unique : Bool}
    {notices : List Notice}
    (h : Definition.ofTokens rules source tokens = .column c primary unique notices) :
    columnDefinition? rules source tokens = some (.column c primary unique notices) := by
  rcases ofTokens_cases rules source tokens with ⟨text, us, he⟩ | ⟨_, _, _, _, he, hd⟩ | ⟨_, he⟩
  · rw [he] at h
    rcases tableConstraint_cases rules text us with ⟨_, -, hc | hc | ⟨-, hc⟩⟩ | ⟨_, hc⟩ <;>
      simp [hc] at h
  · rw [← h, he]
    exact hd
  · simp [he] at h

/-! ### Columns -/

/-- A column of a table under construction was there before, or a definition declares it. -/
theorem mem_columns_foldl_add {definitions : List Definition} {t : Table} {c : Column}
    (h : c ∈ (definitions.foldl Table.add t).columns) :
    c ∈ t.columns ∨ ∃ primary unique notices, .column c primary unique notices ∈ definitions := by
  induction definitions generalizing t with
  | nil => exact .inl h
  | cons definition definitions ih =>
      rcases ih h with h | ⟨primary, unique, notices, hmem⟩
      · cases definition with
        | column c' primary unique notices =>
            rcases List.mem_append.1 h with h | h
            · exact .inl h
            · obtain rfl := List.mem_singleton.1 h
              exact .inr ⟨primary, unique, notices, by simp⟩
        | _ => exact .inl h
      · exact .inr ⟨primary, unique, notices, by simp [hmem]⟩

theorem columns_tableOf (rules : Rules) (source : List Char) (name : String) (body : List Token) :
    (tableOf rules source name body).columns =
      (((splitDefinitions body).map (Definition.ofTokens rules source)).foldl Table.add
        { dialect := rules.dialect, name }).columns := by
  unfold tableOf
  dsimp only
  split <;> rfl

/-- A comment leaves the columns as they are. -/
theorem columns_applyTo (comment : Comment) (t : Table) :
    (comment.applyTo t).columns = t.columns := by
  unfold Comment.applyTo
  split
  · rfl
  · split <;> rfl

/-- A run of the tokens of a source. -/
def IsRun (d : Dialect) (source : List Char) (ts : List Token) : Prop :=
  ∃ tokens, tokenize (rulesOf d) source = .ok tokens ∧ ts <:+: tokens

theorem IsRun.mono {us : List Token} (h : IsRun d source us) (hts : ts <:+: us) : IsRun d source ts := by
  obtain ⟨tokens, htokens, hus⟩ := h
  exact ⟨tokens, htokens, hts.trans hus⟩

/-- **Every column of a script is declared by a run of its tokens.** -/
theorem exists_declares {script : String} {tables : List Table}
    (h : parseAll d script = .ok tables) {t : Table} (ht : t ∈ tables) {c : Column}
    (hc : c ∈ t.columns) :
    ∃ run tail typed, IsRun d script.toList run ∧
      Declares (rulesOf d) script.toList run tail typed c := by
  suffices hall : ∀ t ∈ tables, ∀ c ∈ t.columns, ∃ run tail typed, IsRun d script.toList run ∧
      Declares (rulesOf d) script.toList run tail typed c from hall t ht c hc
  refine forall_of_parseAll h ?_ (fun _ comment t ht => ?_) (fun t warnings ht => ht)
  · rintro tokens htokens t ⟨name, body, comment, -, hbody, rfl⟩ c hc
    rw [columns_tableOf] at hc
    rcases mem_columns_foldl_add hc with hc | ⟨primary, unique, notices, hmem⟩
    · simp at hc
    · obtain ⟨run, hrun, hof⟩ := List.mem_map.1 hmem
      obtain ⟨tail, typed, c', _, _, _, hdecl, hsame⟩ :=
        declares_of_columnDefinition? (columnDefinition?_of_ofTokens hof)
      obtain ⟨rfl, -⟩ := Definition.column.inj hsame
      exact ⟨run, tail, typed,
        ⟨tokens, htokens, (infix_of_mem_splitDefinitions hrun).trans hbody⟩, hdecl⟩
  · rw [columns_applyTo]
    exact ht

/-! ### Defaults -/

/-- An operand takes at least one token. -/
theorem skipOperand_cons_suffix (t : Token) (r : List Token) : skipOperand (t :: r) <:+ r := by
  unfold skipOperand
  dsimp only
  split
  · rename_i hparen
    unfold skipGroup
    split
    · exact parenGroup?_cons_suffix ‹_›
    · rename_i hnone
      rw [parenGroup?, if_pos hparen] at hnone
      split at hnone <;> simp at hnone
  · split
    · exact List.tail_suffix _
    · exact (skipGroup_suffix _).trans (furtherNames_suffix _)
  · exact List.suffix_refl _

/-- A default is the text of the tokens up to the end of its operand. -/
theorem exists_operand {tokens : List Token} {text : String}
    (h : (defaultAttribute rules source tokens).1 = .defaultTo text) :
    ∃ ts t r, tokens = ts ++ skipOperand (t :: r) ∧ skipSign tokens = t :: r ∧ ts ≠ [] ∧
      text = sourceText source ts := by
  unfold defaultAttribute at h
  split at h
  · simp at h
  · rename_i t r hsign
    dsimp only at h
    split at h
    · simp at h
    · have hread : t :: r <:+ tokens := hsign ▸ skipSign_suffix tokens
      obtain ⟨ts, hts⟩ := (skipOperand_suffix t r).trans hread
      refine ⟨ts, t, r, hts.symm, hsign, ?_, ?_⟩
      · rintro rfl
        have hlong := hread.length_le
        have hshort := (skipOperand_cons_suffix t r).length_le
        rw [← hts, List.nil_append, List.length_cons] at hlong
        omega
      · rw [← Attribute.defaultTo.inj h, ← hts, List.length_append, Nat.add_sub_cancel,
          List.take_left]

/-- Only the word `DEFAULT` starts a default. -/
theorem keyword?_of_defaultTo {t : Token} {r : List Token} {text : String}
    (h : (readAttribute rules source t r).1 = .defaultTo text) : t.keyword? = some "default" := by
  have comment : (commentAttribute r).1 ≠ .defaultTo text := by
    unfold commentAttribute
    split
    · simp
    · split <;> simp
  have generated : (generatedAttribute r).1 ≠ .defaultTo text := by
    unfold generatedAttribute
    dsimp only
    split <;> simp
  have on : (onAttribute r).1 ≠ .defaultTo text := by
    unfold onAttribute
    dsimp only
    split <;> simp
  unfold readAttribute at h
  split at h
  case h_3 hkey => exact hkey
  case h_10 => exact absurd h comment
  case h_11 => exact absurd h generated
  case h_15 => exact absurd h on
  all_goals first
    | (split at h <;> simp at h)
    | simp at h

theorem defaultAttribute_of_readAttribute {t : Token} {r : List Token} {text : String}
    (h : (readAttribute rules source t r).1 = .defaultTo text) :
    (defaultAttribute rules source r).1 = .defaultTo text := by
  have hkey := keyword?_of_defaultTo h
  simpa only [readAttribute, hkey] using h

/-! ### Invariants of columns -/

theorem typeWords_suffix (rules : Rules) (ts : List Token) : (typeWords rules ts).2 <:+ ts := by
  fun_induction typeWords rules ts with
  | case1 => exact List.suffix_refl _
  | case2 => exact List.suffix_refl _
  | case3 _ _ _ _ _ _ rest hrest ih =>
      rw [hrest] at ih
      exact ih.trans (List.suffix_cons _ _)
  | case4 => exact List.suffix_refl _

theorem arrayMarks_suffix (ts : List Token) : (arrayMarks ts).2 <:+ ts := by
  fun_induction arrayMarks ts with
  | case1 => exact List.suffix_refl _
  | case2 t r _ n rest hrest ih =>
      rw [hrest] at ih
      exact ih.trans ((List.drop_suffix _ _).trans
        ((List.dropWhile_suffix _).trans (List.suffix_cons _ _)))
  | case3 t r _ _ n rest hrest ih =>
      rw [hrest] at ih
      exact ih.trans (List.suffix_cons _ _)
  | case4 => exact List.suffix_refl _

theorem infix_of_parenGroup? {group rest : List Token} (h : parenGroup? ts = some (group, rest)) :
    group <:+: ts := by
  unfold parenGroup? at h
  split at h
  · simp at h
  · rename_i t r
    split at h
    · split at h
      · obtain ⟨rfl, -⟩ := Prod.mk.inj (Option.some.inj h)
        exact (List.take_prefix _ _).isInfix.trans (List.suffix_cons _ _).isInfix
      · obtain ⟨rfl, -⟩ := Prod.mk.inj (Option.some.inj h)
        exact (List.suffix_cons _ _).isInfix
    · simp at h

/-- The name of a type, made from its words and the number of its dimensions. -/
def typeName (words : List String) (dimensions : Nat) : String :=
  SqlType.canonical (" ".intercalate words) ++ String.join (List.replicate dimensions "[]")

/-- **What a type says of its column**: its words and dimensions, and parameters that are a run of
the tokens. -/
theorem columnOfType?_cases {name : String} {rest : List Token} {c : Column}
    (h : columnOfType? rules source name ts = some (c, rest)) :
    rest <:+ ts ∧ ∃ u first words dimensions, u ∈ ts ∧ u.word? = some first ∧
      (c = { name, rawType := typeName (first :: words) dimensions } ∨
        ∃ params, params <:+: ts ∧
          c = { withParameters source params { name, rawType := "" } with
            rawType := typeName (first :: words) dimensions }) := by
  unfold columnOfType? at h
  split at h
  · simp at h
  · rename_i t r
    split at h
    · simp at h
    · rename_i first hfirst
      split at h
      · simp at h
      · dsimp only at h
        have hwords : (typeWords rules r).2 <:+ t :: r :=
          (typeWords_suffix rules r).trans (List.suffix_cons _ _)
        cases hgroup : parenGroup? (typeWords rules r).2 with
        | none =>
            simp only [hgroup, Option.some.injEq, Prod.mk.injEq] at h
            obtain ⟨rfl, rfl⟩ := h
            exact ⟨(arrayMarks_suffix _).trans hwords, t, first, _, _, by simp, hfirst, .inl rfl⟩
        | some group =>
            simp only [hgroup, Option.some.injEq, Prod.mk.injEq] at h
            obtain ⟨rfl, rfl⟩ := h
            refine ⟨?_, t, first, _, _, by simp, hfirst, .inr ⟨group.1, ?_, rfl⟩⟩
            · exact (arrayMarks_suffix _).trans ((typeWords_suffix rules _).trans
                ((parenGroup?_suffix hgroup).trans hwords))
            · exact (infix_of_parenGroup? hgroup).trans hwords.isInfix

/-- What numbering keeps of a column is kept when the column is settled. -/
theorem settle_keeps {α : Type} {f : Column → α} (hf : ∀ c : Column, f c.numbered = f c) (rules : Rules)
    (c : Column) : f (Declaration.settle rules c) = f c := by
  unfold Declaration.settle
  split
  · exact hf c
  · rfl

/-- What every attribute of a declaration keeps is kept by all of them. -/
theorem foldl_attributes {P : Column → Prop} (ts : List Token) {dec : Declaration} (h : P dec.column)
    (hadd : ∀ t r, t :: r <:+ ts → ∀ dec : Declaration, P dec.column →
      P (dec.add (readAttribute rules source t r).1).column) :
    P ((attributes rules source ts).foldl Declaration.add dec).column := by
  fun_induction attributes rules source ts generalizing dec with
  | case1 => exact h
  | case2 t r =>
      rename_i ih
      refine ih (hadd t r (List.suffix_refl _) dec h) fun t' r' hsuffix dec' =>
        hadd t' r' (hsuffix.trans ?_) dec'
      exact (readAttribute_suffix rules source t r).trans (List.suffix_cons _ _)

/-- **What the types and attributes of columns keep holds of every column of a script.** -/
theorem forall_columns_of_parseAll {P : Column → Prop} {script : String} {tables : List Table}
    (h : parseAll d script = .ok tables)
    (htype : ∀ ts, IsRun d script.toList ts → ∀ name c rest,
      columnOfType? (rulesOf d) script.toList name ts = some (c, rest) → P c)
    (hadd : ∀ t r, IsRun d script.toList (t :: r) → ∀ dec : Declaration, P dec.column →
      P (dec.add (readAttribute (rulesOf d) script.toList t r).1).column)
    (hnumbered : ∀ c : Column, P c → P c.numbered) : ∀ t ∈ tables, ∀ c ∈ t.columns, P c := by
  intro t ht c hc
  obtain ⟨_, tail, typed, hrun, ⟨first, r, name, rfl, -, -, htyped⟩, rfl⟩ := exists_declares h ht hc
  have hr : IsRun d script.toList r := hrun.mono (List.suffix_cons _ _).isInfix
  have hbase : P ({ column := typed } : Declaration).column := htype r hr _ _ _ htyped
  have hfold := foldl_attributes tail hbase fun t' r' hsuffix => hadd t' r'
    (hr.mono (hsuffix.trans (columnOfType?_cases htyped).1).isInfix)
  unfold Declaration.settle
  split
  · exact hnumbered _ hfold
  · exact hfold

end Schemata.Sql
