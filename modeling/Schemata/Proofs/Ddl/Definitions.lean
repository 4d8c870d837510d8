import Schemata.Proofs.Ddl.Clauses

/-! # Written definitions are read

The elements of a written table are read as definitions: columns with the type and the clauses that
they are written with (`givesDefinition_column`), and keys with their names
(`givesDefinition_primaryKey`, `givesDefinition_unique`, `givesDefinition_key`).  A conversion whose
elements are read in this way gives the table of these definitions (`parseAll_conversion`). -/

namespace Schemata.Ddl

open Schemata.Sql Schemata.SqlType Schemata.Text

variable {d : Dialect} {source : List Char} {t u : Token} {r ts rest : List Token}

/-- A text that is read as a definition, up to its outline, wherever it stands between commas. -/
def GivesDefinition (d : Dialect) (text : String) (definition : Definition) : Prop :=
  ∃ ks, Gives d text.toList ks ∧ IsPart ks ∧ .semicolon ∉ ks ∧ ks ≠ [] ∧
    ∀ (ts : List Token) source, ts.map Token.kind = ks →
      (Definition.ofTokens (rulesOf d) source ts).outline = definition

/-! ### Names -/

theorem asciiLower_of_isPlainName {name : String} (h : isPlainName name) :
    asciiLower name = name := by
  have lower : ∀ c, isPlainNameChar c → c.toLower = c := by
    intro c hc
    apply toLower_of_not_isUpper
    simp only [isPlainNameChar, Bool.or_eq_true, beq_iff_eq, isLower_iff_toNat,
      Char.isDigit_iff_toNat] at hc
    rw [← Bool.not_eq_true, isUpper_iff_toNat]
    change ((97 ≤ c.toNat ∧ c.toNat ≤ 122 ∨ 48 ≤ c.toNat ∧ c.toNat ≤ 57) ∨ c = '_') ∨ c = '$' at hc
    rcases hc with ((hc | hc) | rfl) | rfl
    · omega
    · omega
    · decide
    · decide
  have plain : ∀ c, startsPlainName c → isPlainNameChar c := by
    intro c hc
    simp only [startsPlainName, isPlainNameChar, Bool.or_eq_true] at hc ⊢
    rcases hc with hc | hc
    · exact .inl (.inl (.inl hc))
    · exact .inl (.inr hc)
  unfold isPlainName at h
  cases hn : name.toList with
  | nil => simp [hn] at h
  | cons c r =>
      simp only [hn, Bool.and_eq_true, List.all_eq_true] at h
      have hmap : name.toList.map Char.toLower = name.toList := by
        rw [hn, List.map_cons, lower c (plain c h.1), List.map_congr_left fun e he => lower e (h.2 e he)]
        simp
      rw [asciiLower, hmap, String.ofList_toList]

/-- A name that is read as a keyword is that keyword, and it is not reserved. -/
theorem isKeyword_name {name k : String} (ht : t.kind = identKind d name)
    (hk : k ∈ reservedWords ∨ d = .mysql ∨ name ≠ k) : t.isKeyword k = false := by
  rw [isKeyword_eq, ht]
  cases d with
  | mysql => rfl
  | postgresql =>
      unfold identKind nameKind
      dsimp only
      split
      · rename_i h
        simp only [Bool.and_eq_true, Bool.not_eq_true'] at h
        rw [TokenKind.keyword?, asciiLower_of_isPlainName h.1]
        have hne : name ≠ k := by
          rintro rfl
          rcases hk with hk | hk | hk
          · simp [hk] at h
          · cases hk
          · exact hk rfl
        simpa using hne
      · rfl

/-! ### Columns -/

/-- What is read from a declaration with the type `raw`, up to its outline. -/
def ColumnLine.declaration (line : ColumnLine) (raw : String) : Declaration :=
  (line.clauses.flatMap ColumnClause.attributes).foldl Declaration.add
    { column := { name := line.name, rawType := raw } }

/-- The definition that is read from a declaration with the type `raw`, up to its outline. -/
def ColumnLine.definition (rules : Rules) (line : ColumnLine) (raw : String) : Definition :=
  let said := line.declaration raw
  let c := Declaration.settle rules said.column
  .column c said.primary said.unique (said.notices ++ Declaration.typeNotices rules c)

/-- A declaration starts no constraint. -/
theorem startsTableConstraint_column {name w : String} (ht : t.kind = identKind d name)
    (hlike : d = .mysql ∨ name ≠ "like") (hu : u.kind = .word w) (hw : startsType w) :
    startsTableConstraint (rulesOf d) (t :: u :: r) = false := by
  have reserved : ∀ k ∈ ["primary", "foreign", "unique", "check"], t.isKeyword k = false := by
    have : ∀ k ∈ ["primary", "foreign", "unique", "check"], k ∈ reservedWords := by decide
    exact fun k hk => isKeyword_name ht (.inl (this k hk))
  have hlike' : t.isKeyword "like" = false := isKeyword_name ht (.inr hlike)
  have husing : u.isKeyword "using" = false := by
    simp only [startsType, sameWord, Bool.not_eq_true', Bool.or_eq_false_iff] at hw
    have hlower : asciiLower "using" = "using" := by decide
    rw [isKeyword_eq, hu, TokenKind.keyword?, Option.some_beq_some, ← hlower]
    exact hw.2
  have hindex : startsIndex (rulesOf d) (t :: u :: r) = false := by
    cases d with
    | postgresql => rfl
    | mysql =>
        have : ∀ k ∈ indexWords, t.isKeyword k = false := fun k _ => isKeyword_name ht (.inr (.inl rfl))
        simp only [startsIndex, startsWithOneOf, List.head?_cons, Option.any_some, Token.isOneOf,
          Bool.and_eq_false_iff, List.any_eq_false, Bool.not_eq_true]
        exact .inr this
  simp [startsTableConstraint, Token.isOneOf, reserved, hlike', hindex, startsWithOneOf, husing, hu]

/-- The column that a declaration makes. -/
def columnOf (rules : Rules) (said : Declaration) : Definition :=
  let c := Declaration.settle rules said.column
  .column c said.primary said.unique (said.notices ++ Declaration.typeNotices rules c)

/-- A type that the dialect knows adds no notice. -/
theorem columnOf_known {rules : Rules} {said : Declaration} {c : Column}
    (hsettle : Declaration.settle rules said.column = c) (hknown : isKnown rules.dialect c.rawType) :
    columnOf rules said = .column c said.primary said.unique said.notices := by
  have hnotices : Declaration.typeNotices rules c = [] := if_pos hknown
  simp only [columnOf, hsettle, hnotices, List.append_nil]

/-- A declaration is read as a column of its name, its type and its attributes. -/
theorem ofTokens_declaration {name w : String} {c : Column} (hname : name ≠ "")
    (hlike : d = .mysql ∨ name ≠ "like") (ht : t.kind = identKind d name) (hu : u.kind = .word w)
    (hw : startsType w)
    (hread : columnOfType? (rulesOf d) source name (u :: r) = some (c, rest)) :
    Definition.ofTokens (rulesOf d) source (t :: u :: r) =
      columnOf (rulesOf d)
        ((attributes (rulesOf d) source rest).foldl Declaration.add { column := c }) := by
  have hconstraint : afterWords ["constraint"] (t :: u :: r) = none :=
    afterWords_neg (isKeyword_name ht (.inl (by decide)))
  have hstart := startsTableConstraint_column (r := r) ht hlike hu hw
  unfold Definition.ofTokens
  simp only [hconstraint, hstart, Bool.false_eq_true, if_false, columnDefinition?,
    ident?_identKind d ht, String.isEmpty_iff, hname, hread, Option.map_some, Option.getD_some]
  rfl

/-- A declaration is read as a column of its name, its type and its clauses. -/
theorem ofTokens_column {line : ColumnLine} {raw : String} {type clauses : List Token}
    (hname : line.name ≠ "") (hlike : d = .mysql ∨ line.name ≠ "like")
    (ht : t.kind = identKind d line.name) (htype : TypeKinds d raw (type.map Token.kind))
    (hstarts : StartsClause d clauses)
    (hattributes : outlined (rulesOf d) source clauses = line.clauses.flatMap ColumnClause.attributes) :
    (Definition.ofTokens (rulesOf d) source (t :: (type ++ clauses))).outline =
      line.definition (rulesOf d) raw := by
  obtain ⟨length, precision, members, hread⟩ := columnOfType?_written htype hstarts source line.name
  obtain ⟨w, ws, params, hkinds, hw, -⟩ := htype.shape
  obtain ⟨u, r, rfl, hu, -⟩ := List.map_eq_cons_iff.1 hkinds
  rw [List.cons_append] at hread ⊢
  have hfold := outline_foldl_add (attributes (rulesOf d) source clauses)
    { column := { name := line.name, rawType := raw, length, precision, members } }
  change _ = List.foldl Declaration.add _ (outlined (rulesOf d) source clauses) at hfold
  rw [hattributes] at hfold
  change _ = line.declaration raw at hfold
  rw [ofTokens_declaration hname hlike ht hu hw hread]
  unfold ColumnLine.definition
  rw [← hfold]
  simp only [columnOf, Definition.outline, Declaration.outline]
  rw [← outline_settle]
  rfl

/-- The kinds of the tokens of a declaration. -/
theorem gives_line {line : ColumnLine} {raw : String} {typeKinds : List TokenKind}
    {kinds : ColumnClause → List TokenKind} (htype : Gives d line.type.toList typeKinds)
    (hkinds : TypeKinds d raw typeKinds)
    (h : ∀ clause ∈ line.clauses, Gives d (clause.text (spellingOf d) line.name).toList (kinds clause) ∧
      IsPart (kinds clause) ∧ .semicolon ∉ kinds clause) :
    Gives d (line.text (spellingOf d)).toList
        (identKind d line.name :: typeKinds ++ line.clauses.flatMap kinds) ∧
      IsPart (identKind d line.name :: typeKinds ++ line.clauses.flatMap kinds) ∧
      .semicolon ∉ identKind d line.name :: typeKinds ++ line.clauses.flatMap kinds := by
  have hclauses : List.Forall₂
      (fun clause ks => Gives d (clause.text (spellingOf d) line.name).toList ks)
      line.clauses (line.clauses.map kinds) := by
    rw [List.forall₂_map_right_iff, List.forall₂_same]
    exact fun clause hclause => (h clause hclause).1
  have hall := gives_columnLine htype hclauses
  rw [← List.flatMap_def] at hall
  obtain ⟨hpart, hsemicolon⟩ := isPlain_identKind d line.name
  refine ⟨hall, ?_, ?_⟩
  · rw [List.cons_append]
    have hclause : IsPart (line.clauses.flatMap kinds) :=
      IsPart.flatMap fun clause hclause => (h clause hclause).2.1
    exact (hkinds.part.1.append hclause).cons hpart
  · have hclause : TokenKind.semicolon ∉ line.clauses.flatMap kinds := by
      rw [List.mem_flatMap]
      rintro ⟨clause, hclause, hmem⟩
      exact (h clause hclause).2.2 hmem
    simp [hsemicolon, hkinds.part.2, hclause]

/-- **A written declaration is read** with its type and its clauses. -/
theorem givesDefinition_column {line : ColumnLine} {raw : String} {valueKinds : List TokenKind}
    (hname : line.name ≠ "") (hlike : d = .mysql ∨ line.name ≠ "like")
    (htype : GivesType d line.type raw) (hvalue : ValueKinds valueKinds)
    (hdefault : ∀ text, .defaultTo text ∈ line.clauses → Gives d text.toList valueKinds)
    (hwords : ∀ clause ∈ line.clauses, clause.word ∈ clauseWords d) :
    GivesDefinition d ((TableElement.column line).text (spellingOf d))
      (line.definition (rulesOf d) raw) := by
  obtain ⟨typeKinds, hgives, hkinds⟩ := htype
  obtain ⟨hall, hpart, hsemicolon⟩ := gives_line hgives hkinds
    fun clause hclause => ⟨gives_clause fun text htext => hdefault text (htext ▸ hclause),
      part_clauseKinds hvalue clause⟩
  refine ⟨_, hall, hpart, hsemicolon, by simp, ?_⟩
  intro ts source hts
  rw [List.cons_append] at hts
  obtain ⟨t, r, rfl, ht, hr⟩ := List.map_eq_cons_iff.1 hts
  obtain ⟨type, clauses, rfl, rfl, hcl⟩ := List.map_eq_append_iff.1 hr
  obtain ⟨hstarts, hattributes⟩ := outlined_clauses (rulesOf d) source hvalue hwords hcl
  exact ofTokens_column hname hlike ht hkinds hstarts hattributes

/-! ### Keys -/

theorem part_groupKinds (d : Dialect) (names : List String) :
    IsPart (groupKinds d names) ∧ .semicolon ∉ groupKinds d names := by
  have hnames : IsBalanced (namesKinds d names) ∧ .semicolon ∉ namesKinds d names := by
    refine ⟨balanced_intercalate fun ks hks => ?_, semicolon_notMem_intercalate fun ks hks => ?_⟩
    · obtain ⟨name, -, rfl⟩ := List.mem_map.1 hks
      exact (part_nil.cons (isPlain_identKind d name).1).balanced
    · obtain ⟨name, -, rfl⟩ := List.mem_map.1 hks
      simp [(isPlain_identKind d name).2]
  exact ⟨hnames.1.group, by simp [groupKinds, hnames.2]⟩

/-- The names at the front of parts. -/
theorem identsOf_written {names : List String} {parts : List (List Token)}
    (h : parts.map (·.map Token.kind) = names.map ([identKind d ·])) :
    parts.filterMap (·.head?.bind Token.ident?) = names := by
  induction names generalizing parts with
  | nil =>
      obtain rfl : parts = [] := by simpa using h
      rfl
  | cons name names ih =>
      obtain ⟨part, rest, rfl, hpart, hrest⟩ := List.map_eq_cons_iff.1 h
      obtain ⟨t, r, rfl, ht, -⟩ := List.map_eq_cons_iff.1 hpart
      have hident : t.ident? = some name := ident?_identKind d ht
      simp [hident, ih hrest]

/-- The names in parentheses after other words are read. -/
theorem keyNames?_written {names : List String} (words : List Token) (hne : names ≠ [])
    (hwords : ∀ t ∈ words, t.kind ≠ .lparen) (h : ts.map Token.kind = groupKinds d names) :
    keyNames? (words ++ ts) = some names := by
  obtain ⟨opening, body, closing, rfl, hopening, hbody, hclosing⟩ := exists_group_of_kinds h
  have hdrop : (words ++ opening :: (body ++ [closing])).dropWhile (·.kind ≠ .lparen) =
      opening :: (body ++ [closing]) := by
    rw [List.dropWhile_append_of_pos fun t ht => by simpa using hwords t ht]
    simp [hopening]
  have hsplit : (splitDefinitions body).map (·.map Token.kind) = names.map ([identKind d ·]) := by
    refine map_kind_splitDefinitions (fun ks hks => ?_) hbody
    obtain ⟨name, -, rfl⟩ := List.mem_map.1 hks
    exact ⟨part_nil.cons (isPlain_identKind d name).1, by simp⟩
  have hbalanced : IsBalanced (body.map Token.kind) := by
    rw [hbody]
    apply balanced_intercalate
    intro ks hks
    obtain ⟨name, -, rfl⟩ := List.mem_map.1 hks
    exact (part_nil.cons (isPlain_identKind d name).1).balanced
  unfold keyNames?
  rw [hdrop, parenGroup?_group hopening hclosing hbalanced]
  simp only [identsOf_written hsplit]

/-- A primary key is read with its names. -/
theorem givesDefinition_primaryKey (d : Dialect) {names : List String} (hne : names ≠ []) :
    GivesDefinition d ((TableElement.primaryKey names).text (spellingOf d)) (.primaryKey names) := by
  obtain ⟨hpart, hsemicolon⟩ := part_groupKinds d names
  refine ⟨_, gives_primaryKey d names, (hpart.cons rfl).cons rfl, by simp [hsemicolon], by simp, ?_⟩
  intro ts source hts
  obtain ⟨primary, r, rfl, hprimary, hr⟩ := List.map_eq_cons_iff.1 hts
  obtain ⟨key, group, rfl, hkey, hgroup⟩ := List.map_eq_cons_iff.1 hr
  have hwords : primary.isKeyword "constraint" = false ∧ primary.isKeyword "primary" = true ∧
      key.isKeyword "key" = true := by
    rw [isKeyword_eq, isKeyword_eq, isKeyword_eq, hprimary, hkey]
    decide
  have hnames := keyNames?_written [] hne (by simp) hgroup
  rw [List.nil_append] at hnames
  simp [Definition.ofTokens, afterWords, hwords, startsTableConstraint, Token.isOneOf,
    startsWithOneOf, tableConstraint, keyed, hnames, Definition.outline]

/-- A unique constraint is read with its names. -/
theorem givesDefinition_unique (d : Dialect) {names : List String} (hne : names ≠ []) :
    GivesDefinition d ((TableElement.unique names).text (spellingOf d)) (.unique names) := by
  obtain ⟨hpart, hsemicolon⟩ := part_groupKinds d names
  obtain ⟨words, hkinds, hplain⟩ : ∃ words, uniqueKinds d = .word "UNIQUE" :: words ∧
      IsPart words ∧ .semicolon ∉ words ∧ ∀ k ∈ words, k ≠ .lparen := by
    cases d with
    | mysql => exact ⟨_, rfl, rfl, by decide, by decide⟩
    | postgresql => exact ⟨_, rfl, rfl, by decide, by decide⟩
  have hgives := gives_unique d names
  rw [hkinds, List.cons_append] at hgives
  refine ⟨_, hgives, (hplain.1.append hpart).cons rfl, by simp [hsemicolon, hplain.2.1], by simp, ?_⟩
  intro ts source hts
  obtain ⟨unique, r, rfl, hunique, hr⟩ := List.map_eq_cons_iff.1 hts
  obtain ⟨further, group, rfl, rfl, hgroup⟩ := List.map_eq_append_iff.1 hr
  have hwords : unique.isKeyword "constraint" = false ∧ unique.isKeyword "primary" = false ∧
      unique.isKeyword "foreign" = false ∧ unique.isKeyword "unique" = true := by
    rw [isKeyword_eq, isKeyword_eq, isKeyword_eq, isKeyword_eq, hunique]
    decide
  have hnames := keyNames?_written further hne
    (fun t ht => hplain.2.2 _ (List.mem_map_of_mem ht)) hgroup
  simp [Definition.ofTokens, afterWords, hwords, startsTableConstraint, Token.isOneOf,
    tableConstraint, keyed, hnames, Definition.outline]

/-- An index of MySQL is read with its name. -/
theorem givesDefinition_key (name : String) :
    GivesDefinition .mysql ((TableElement.key name).text (spellingOf .mysql)) (.index [name]) := by
  obtain ⟨hpart, hsemicolon⟩ := part_groupKinds .mysql [name]
  refine ⟨_, gives_key .mysql name, hpart.cons rfl, by simp [hsemicolon], by simp, ?_⟩
  intro ts source hts
  obtain ⟨key, group, rfl, hkey, hgroup⟩ := List.map_eq_cons_iff.1 hts
  have hwords : ∀ k ∈ ["constraint", "primary", "foreign", "unique", "check", "like", "exclude"],
      key.isKeyword k = false := by
    simp only [isKeyword_eq, hkey]
    decide
  have hindex : startsIndex (rulesOf .mysql) (key :: group) = true := by
    have : key.isOneOf indexWords = true := by
      rw [isOneOf_eq, hkey]
      decide
    exact this
  have hnames := keyNames?_written [key] (by simp) (by simp [hkey]) hgroup
  rw [List.singleton_append] at hnames
  simp [Definition.ofTokens, afterWords, hwords, startsTableConstraint, Token.isOneOf, hindex,
    tableConstraint, keyed, hnames, Definition.outline]

/-! ### Conversions -/

/-- The kinds of elements that are read as definitions. -/
theorem kinds_of_definitions {elements : List TableElement} {definitions : List Definition}
    (h : List.Forall₂ (fun e => GivesDefinition d (e.text (spellingOf d))) elements definitions) :
    ∃ kss, List.Forall₂ (fun e ks => Gives d (e.text (spellingOf d)).toList ks) elements kss ∧
      (∀ ks ∈ kss, IsPart ks ∧ .semicolon ∉ ks ∧ ks ≠ []) ∧
      ∀ (parts : List (List Token)) source, parts.map (·.map Token.kind) = kss →
        parts.map (fun ts => (Definition.ofTokens (rulesOf d) source ts).outline) = definitions := by
  induction h with
  | nil => exact ⟨[], .nil, by simp, by simp⟩
  | cons hd _ ih =>
      obtain ⟨ks, hgives, hpart, hsemicolon, hne, hread⟩ := hd
      obtain ⟨kss, hall, hparts, hreads⟩ := ih
      refine ⟨ks :: kss, .cons hgives hall, ?_, ?_⟩
      · intro js hjs
        rcases List.mem_cons.1 hjs with rfl | hjs
        · exact ⟨hpart, hsemicolon, hne⟩
        · exact hparts js hjs
      · intro parts source hkinds
        obtain ⟨ts, rest, rfl, hts, hrest⟩ := List.map_eq_cons_iff.1 hkinds
        rw [List.map_cons, hread ts source hts, hreads rest source hrest]

/-- **A conversion is read** as the table of the definitions that its elements give, up to its
outline, with the comments of its statements. -/
theorem parseAll_conversion {c : Conversion} {definitions : List Definition}
    (hname : c.create.name ≠ "") (hcomments : d = .postgresql ∨ c.comments = [])
    (h : List.Forall₂ (fun e => GivesDefinition d (e.text (spellingOf d)))
      c.create.elements definitions) :
    ∃ t : Table, t.outline = tableOfDefinitions (rulesOf d) c.create.name definitions ∧
      parseAll d (c.text (spellingOf d)) =
        .ok ((c.comments.map CommentOn.read).foldl (fun ts c => c.applyAmong ts)
          [{ t with tableComment := c.create.comment.getD "" }]) := by
  obtain ⟨kss, hgives, hparts, hread⟩ := kinds_of_definitions h
  have hwritten : Written d c kss :=
    ⟨hname, hcomments, hgives, fun ks hks => ⟨(hparts ks hks).1.balanced, (hparts ks hks).2.1⟩⟩
  obtain ⟨source, tables, htables, hparse⟩ := parseAll_written [(c, kss)] (by simp)
    (fun p hp => by
      obtain rfl := List.mem_singleton.1 hp
      exact hwritten)
  cases htables with
  | cons hreads hnil =>
  cases hnil
  obtain ⟨body, hbody, rfl⟩ := hreads
  refine ⟨tableOf (rulesOf d) source c.create.name body, ?_, by simpa using hparse⟩
  have hsplit := map_kind_splitDefinitions
    (fun ks hks => ⟨(hparts ks hks).1, (hparts ks hks).2.2⟩) hbody
  have hdefinitions := hread _ source hsplit
  have houtline := outline_tableOfDefinitions (rulesOf d) c.create.name
    ((splitDefinitions body).map (Definition.ofTokens (rulesOf d) source))
  rw [List.map_map] at houtline
  change _ = tableOfDefinitions (rulesOf d) c.create.name ((splitDefinitions body).map fun ts =>
    (Definition.ofTokens (rulesOf d) source ts).outline) at houtline
  rw [hdefinitions] at houtline
  exact houtline

end Schemata.Ddl
