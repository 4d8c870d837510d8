import Schemata.Proofs.Ddl.MysqlTables
import Schemata.Proofs.Ddl.PostgresTables

/-! # Written scripts are accepted

What a conversion writes is read in the dialect that it is written for unless it holds a text that
was copied (`copiedTexts`) and that is not self-contained there (`isSelfContained`): the tables that
are read have the names of those that were written, and a script can be converted back and forth
without an error (`conversion_accepted`).  A default that is an expression is such a text, and what
is an operator in one dialect may start a comment in the other. -/

namespace Schemata.Ddl

open Schemata.Sql Schemata.SqlType Schemata.Text

variable {d : Dialect} {t : Table} {c : Column}

/-! ### Self-contained texts -/

/-- Whether the tokens of a text stand in one statement and leave no parenthesis open, and nothing
follows the last one. -/
def isSelfContained (d : Dialect) (text : String) : Bool :=
  (wholeKinds? (rulesOf d) text.toList).any fun ks =>
    depthThrough false 0 ks == some 0 && !ks.contains .semicolon

/-- A text that gives closed tokens wherever it stands before a separator. -/
def GivesClosed (d : Dialect) (text : String) : Prop :=
  ∃ ks, Gives d text.toList ks ∧ Closed ks

theorem givesClosed_of_isSelfContained {text : String} (h : isSelfContained d text) :
    GivesClosed d text := by
  obtain ⟨ks, hks, hclosed⟩ := (Option.any_eq_true _ _).1 h
  simp only [Bool.and_eq_true, beq_iff_eq, Bool.not_eq_true', List.contains_eq_mem,
    decide_eq_false_iff_not] at hclosed
  exact ⟨ks, gives_of_wholeKinds? hks, hclosed.1, hclosed.2⟩

theorem closed_of_part {ks : List TokenKind} (h : IsPart ks ∧ .semicolon ∉ ks) : Closed ks :=
  ⟨h.1.balanced, h.2⟩

theorem Closed.cons {k : TokenKind} {ks : List TokenKind} (hk : isPlain k) (hne : k ≠ .semicolon)
    (h : Closed ks) : Closed (k :: ks) :=
  ⟨(depthThrough_plain hk).trans h.balanced, by simp [hne.symm, h.oneStatement]⟩

theorem Closed.append {ks ls : List TokenKind} (h : Closed ks) (h' : Closed ls) :
    Closed (ks ++ ls) :=
  ⟨h.balanced.append h'.balanced, by simp [h.oneStatement, h'.oneStatement]⟩

theorem Closed.flatten {kss : List (List TokenKind)} (h : ∀ ks ∈ kss, Closed ks) :
    Closed kss.flatten := by
  induction kss with
  | nil => exact ⟨balanced_nil, by simp⟩
  | cons ks kss ih =>
      rw [List.flatten_cons]
      exact (h ks (by simp)).append (ih fun ls hls => h ls (by simp [hls]))

/-! ### Copied texts -/

/-- The texts that are copied into the type of a column: the parameters of a known type where they
are kept, and all of an unknown type. -/
def copiedIntoType (source : Dialect) (name : String) (c : Column) : List String :=
  match counterpart source c with
  | some t => if t.params = .drop then [] else c.typeParams.toList
  | none => [upper name ++ c.typeParams.getD ""]

/-- The texts that are copied into the type that a column is given. -/
def copiedTypes (source : Dialect) (c : Column) : List String :=
  match source with
  | .mysql =>
    if c.isTinyIntBool || c.rawType == "enum" || c.rawType == "set" then []
    else copiedIntoType .mysql c.rawType c
  | .postgresql =>
    if 0 < dimensions c.rawType then [] else copiedIntoType .postgresql (element c.rawType) c

/-- The text that is copied for a default: an expression, and in PostgreSQL the call of a
function. -/
def copiedValue (target : Dialect) : DefaultValue → List String
  | .expression text => [text]
  | .function text => if target = .postgresql then [text] else []
  | _ => []

/-- The type that a column is given in a dialect. -/
def typeIn (target : Dialect) (c : Column) : ChosenType :=
  match target with
  | .mysql => Mysql.chosenType c
  | .postgresql => Postgres.chosenType c

/-- The texts that are copied into the default of a column, which one that is numbered does not
have. -/
def copiedDefaults (source : Dialect) (c : Column) : List String :=
  if (typeIn source.other c).numbered then []
  else c.defaultValue.toList.flatMap (copiedValue source.other <| .ofText source ·)

/-- The texts of a column that are copied into the other dialect. -/
def copiedTexts (source : Dialect) (c : Column) : List String :=
  copiedTypes source c ++ copiedDefaults source c

/-- Every text that is copied from a table into the other dialect is self-contained there. -/
def SelfContained (source : Dialect) (t : Table) : Prop :=
  ∀ c ∈ t.columns, ∀ text ∈ copiedTexts source c, isSelfContained source.other text

instance (source : Dialect) (t : Table) : Decidable (SelfContained source t) :=
  inferInstanceAs
    (Decidable (∀ c ∈ t.columns, ∀ text ∈ copiedTexts source c, isSelfContained source.other text))

/-- Every text that the conversion of a script copies is self-contained. -/
def Hop.SelfContained (done : Hop) : Prop :=
  ∀ t ∈ done.tables, Ddl.SelfContained done.direction.source t

instance (done : Hop) : Decidable done.SelfContained :=
  inferInstanceAs (Decidable (∀ t ∈ done.tables, SelfContained done.direction.source t))

/-! ### Types -/

/-- Whether the name of a counterpart is self-contained, also with the parameters that are given to
it. -/
def isNameSelfContained (d : Dialect) (t : Counterpart) : Bool :=
  isSelfContained d t.name &&
    match t.params with
    | .keepOr params => isSelfContained d (t.name ++ "(" ++ params ++ ")")
    | _ => true

theorem separated_typeParams {params : String} (h : c.typeParams = some params) :
    Separated params.toList := by
  unfold Column.typeParams at h
  split at h
  · obtain rfl := Option.some.inj h
    simp [separated_cons, separators]
  · obtain rfl := Option.some.inj h
    simp [separated_cons, separators]
  · simp at h

theorem givesClosed_append {a b : String} (ha : GivesClosed d a) (hb : GivesClosed d b)
    (hsep : Separated b.toList) : GivesClosed d (a ++ b) := by
  obtain ⟨ks, hks, hclosed⟩ := ha
  obtain ⟨ls, hls, hclosed'⟩ := hb
  refine ⟨ks ++ ls, ?_, hclosed.append hclosed'⟩
  rw [String.toList_append]
  exact hks.append hls hsep

/-- A counterpart is written with the parameters that it keeps. -/
theorem givesClosed_render {t : Counterpart} (h : isNameSelfContained d t)
    (hparams : t.params ≠ .drop → ∀ params, c.typeParams = some params →
      isSelfContained d params) : GivesClosed d (t.render c) := by
  simp only [isNameSelfContained, Bool.and_eq_true] at h
  have hname := givesClosed_of_isSelfContained h.1
  have kept : t.params ≠ .drop → ∀ params, c.typeParams = some params →
      GivesClosed d (t.name ++ params) := fun hkeep params hp =>
    givesClosed_append hname (givesClosed_of_isSelfContained (hparams hkeep params hp))
      (separated_typeParams hp)
  unfold Counterpart.render
  cases ht : t.params with
  | drop => exact hname
  | keep =>
      cases hp : c.typeParams with
      | none => exact hname
      | some params => exact kept (by simp [ht]) params hp
  | keepOr default =>
      cases hp : c.typeParams with
      | none =>
          have := h.2
          rw [ht] at this
          exact givesClosed_of_isSelfContained this
      | some params => exact kept (by simp [ht]) params hp

theorem givesClosed_of_givesType {text raw : String} (h : GivesType d text raw) :
    GivesClosed d text := by
  obtain ⟨ks, hks, htype⟩ := h
  exact ⟨ks, hks, closed_of_part htype.part⟩

/-- The type of a column is closed if what is copied into it is. -/
theorem givesClosed_mysqlType
    (h : ∀ text ∈ copiedTypes .postgresql c, isSelfContained .mysql text) :
    GivesClosed .mysql (Mysql.chosenType c).text := by
  have table : ∀ e ∈ postgresTypes, isNameSelfContained .mysql e.2 := by decide +kernel
  unfold Mysql.chosenType
  simp only [copiedTypes] at h
  split
  · exact givesClosed_of_isSelfContained (by decide +kernel)
  · rename_i hdim
    rw [if_neg hdim, copiedIntoType] at h
    cases ht : counterpart .postgresql c with
    | none =>
        simp only [ht, List.mem_singleton, forall_eq] at h
        exact givesClosed_of_isSelfContained h
    | some t =>
        simp only [ht] at h
        have hmem : (element c.rawType, t) ∈ postgresTypes := mem_of_lookup ht
        apply givesClosed_render (table (element c.rawType, t) hmem)
        intro hkeep params hp
        rw [if_neg hkeep, hp] at h
        exact h params (by simp)

/-- The type of the values of a column is closed if what is copied into it is. -/
theorem givesClosed_valueType (hbool : c.isTinyIntBool = false)
    (h : ∀ text ∈ copiedTypes .mysql c, isSelfContained .postgresql text) :
    GivesClosed .postgresql (Postgres.valueType c) := by
  have table : ∀ e ∈ mysqlTypes, isNameSelfContained .postgresql e.2 := by decide +kernel
  unfold Postgres.valueType
  simp only [copiedTypes, hbool, Bool.false_or] at h
  split
  · obtain ⟨raw, hraw, -⟩ := givesType_varchar (Postgres.memberWidth c.members)
    exact givesClosed_of_givesType hraw
  · rename_i henum
    split
    · exact givesClosed_of_isSelfContained (by decide +kernel)
    · rename_i hset
      rw [if_neg (by simp [henum, hset]), copiedIntoType] at h
      cases ht : counterpart .mysql c with
      | none =>
          simp only [ht, List.mem_singleton, forall_eq] at h
          exact givesClosed_of_isSelfContained h
      | some t =>
          simp only [ht] at h
          obtain ⟨key, hmem⟩ := counterpart_mem ht
          apply givesClosed_render (table (key, t) hmem)
          intro hkeep params hp
          rw [if_neg hkeep, hp] at h
          exact h params (by simp)

theorem givesClosed_postgresType
    (h : ∀ text ∈ copiedTypes .mysql c, isSelfContained .postgresql text) :
    GivesClosed .postgresql (Postgres.chosenType c).text := by
  have serial : ∀ s ∈ ["BIGSERIAL", "SMALLSERIAL", "SERIAL"], isSelfContained .postgresql s := by
    decide +kernel
  unfold Postgres.chosenType
  split
  · exact givesClosed_of_isSelfContained (by decide +kernel)
  · rename_i hbool
    have hvalue := givesClosed_valueType (by simpa using hbool) h
    split
    · exact hvalue
    · cases hs : Postgres.serialOf (Postgres.valueType c) with
      | some s =>
          exact givesClosed_of_isSelfContained (serial s (mem_of_serialOf hs))
      | none => exact hvalue

/-! ### Defaults -/

theorem givesClosed_of_valueKinds {text : String}
    (h : ∃ ks, Gives d text.toList ks ∧ ValueKinds ks) : GivesClosed d text := by
  obtain ⟨ks, hks, hvalue⟩ := h
  exact ⟨ks, hks, closed_of_part hvalue.part⟩

theorem mysql_defaultText_expression (c : Column) (type : ChosenType) (e : String) :
    Mysql.defaultText c type (.expression e) = .ok e := by
  simp [Mysql.defaultText, DefaultValue.asBool]

theorem postgres_defaultText_copied (c : Column) (type : ChosenType) (text : String) :
    Postgres.defaultText c type (.expression text) = .ok text ∧
      Postgres.defaultText c type (.function text) = .ok text := by
  simp [Postgres.defaultText, DefaultValue.asBool]

theorem givesClosed_mysqlDefault {type : ChosenType} {text result : String}
    (hcopied : ∀ copy ∈ copiedValue .mysql (.ofText .postgresql text), isSelfContained .mysql copy)
    (h : Mysql.defaultText c type (.ofText .postgresql text) = .ok result) :
    GivesClosed .mysql result := by
  cases hv : DefaultValue.ofText .postgresql text with
  | expression e =>
      rw [hv, mysql_defaultText_expression] at h
      obtain rfl := Except.ok.inj h
      exact givesClosed_of_isSelfContained (hcopied e (by simp [hv, copiedValue]))
  | _ => exact givesClosed_of_valueKinds (mysql_gives_default (by simp [hv]) h)

theorem givesClosed_postgresDefault {type : ChosenType} {text result : String}
    (hcopied : ∀ copy ∈ copiedValue .postgresql (.ofText .mysql text),
      isSelfContained .postgresql copy)
    (h : Postgres.defaultText c type (.ofText .mysql text) = .ok result) :
    GivesClosed .postgresql result := by
  cases hv : DefaultValue.ofText .mysql text with
  | expression e =>
      rw [hv, (postgres_defaultText_copied c type e).1] at h
      obtain rfl := Except.ok.inj h
      exact givesClosed_of_isSelfContained (hcopied e (by simp [hv, copiedValue]))
  | function f =>
      rw [hv, (postgres_defaultText_copied c type f).2] at h
      obtain rfl := Except.ok.inj h
      exact givesClosed_of_isSelfContained (hcopied f (by simp [hv, copiedValue]))
  | _ => exact givesClosed_of_valueKinds (postgres_gives_default (by simp [hv]) (by simp [hv]) h)

/-- What is copied for a default is among the copied texts of its column. -/
theorem mem_copiedTexts {source : Dialect} {text copy : String}
    (hnumbered : (typeIn source.other c).numbered = false) (hdefault : c.defaultValue = some text)
    (h : copy ∈ copiedValue source.other (.ofText source text)) : copy ∈ copiedTexts source c := by
  refine List.mem_append.2 (.inr ?_)
  simpa [copiedDefaults, hnumbered, hdefault] using h

theorem givesClosed_default_mysql {text : String}
    (h : ∀ copy ∈ copiedTexts .postgresql c, isSelfContained .mysql copy)
    (htext : Mysql.default? c (Mysql.chosenType c) = some (.ok text)) :
    GivesClosed .mysql text := by
  obtain ⟨hnumbered, source, hsource, hresult⟩ := mysql_default?_ok htext
  apply givesClosed_mysqlDefault _ hresult
  intro copy hcopy
  exact h copy (mem_copiedTexts hnumbered hsource hcopy)

theorem givesClosed_default_postgres {text : String}
    (h : ∀ copy ∈ copiedTexts .mysql c, isSelfContained .postgresql copy)
    (htext : Postgres.default? c (Postgres.chosenType c) = some (.ok text)) :
    GivesClosed .postgresql text := by
  obtain ⟨hnumbered, source, hsource, hresult⟩ := postgres_default?_ok htext
  apply givesClosed_postgresDefault _ hresult
  intro copy hcopy
  exact h copy (mem_copiedTexts hnumbered hsource hcopy)

/-! ### Elements -/

/-- The kinds of closed texts, one after the other. -/
theorem exists_closedKinds {α : Type} {f : α → String} {l : List α}
    (h : ∀ a ∈ l, GivesClosed d (f a)) :
    ∃ kss, List.Forall₂ (fun a ks => Gives d (f a).toList ks) l kss ∧ ∀ ks ∈ kss, Closed ks := by
  induction l with
  | nil => exact ⟨[], .nil, by simp⟩
  | cons a l ih =>
      obtain ⟨ks, hks, hclosed⟩ := h a (by simp)
      obtain ⟨kss, hkss, hall⟩ := ih fun b hb => h b (by simp [hb])
      refine ⟨ks :: kss, .cons hks hkss, fun ls hls => ?_⟩
      rcases List.mem_cons.1 hls with rfl | hls
      · exact hclosed
      · exact hall ls hls

theorem givesClosed_clause {name : String} {clause : ColumnClause}
    (h : ∀ text, clause = .defaultTo text → GivesClosed d text) :
    GivesClosed d (clause.text (spellingOf d) name) := by
  cases clause with
  | defaultTo text =>
      obtain ⟨ks, hks, hclosed⟩ := h text rfl
      exact ⟨_, gives_clause fun text' he => ColumnClause.defaultTo.inj he ▸ hks,
        hclosed.cons (k := .word "DEFAULT") rfl (by simp)⟩
  | _ => exact ⟨_, gives_clause (by simp), closed_of_part (part_clauseKinds (.plain (.literal "")) _)⟩

/-- A declaration is closed if its type and its default are. -/
theorem givesClosed_columnLine {line : ColumnLine} (htype : GivesClosed d line.type)
    (hdefault : ∀ text, .defaultTo text ∈ line.clauses → GivesClosed d text) :
    GivesClosed d (line.text (spellingOf d)) := by
  obtain ⟨typeKinds, hgives, hclosed⟩ := htype
  have hclauses : ∀ clause ∈ line.clauses, GivesClosed d (clause.text (spellingOf d) line.name) :=
    fun clause hclause => givesClosed_clause fun text htext => hdefault text (htext ▸ hclause)
  obtain ⟨kss, hkss, hall⟩ := exists_closedKinds hclauses
  obtain ⟨hplain, hne⟩ := isPlain_identKind d line.name
  refine ⟨_, gives_columnLine hgives hkss, ?_⟩
  rw [List.cons_append]
  exact (hclosed.append (Closed.flatten hall)).cons hplain hne.symm

theorem givesClosed_element {e : TableElement}
    (h : ∀ line, e = .column line → GivesClosed d (line.text (spellingOf d))) :
    GivesClosed d (e.text (spellingOf d)) := by
  have group : ∀ names, Closed (groupKinds d names) :=
    fun names => closed_of_part (part_groupKinds d names)
  cases e with
  | column line => exact h line rfl
  | primaryKey names =>
      exact ⟨_, gives_primaryKey d names, ((group names).cons rfl (by simp)).cons rfl (by simp)⟩
  | unique names =>
      have words : Closed (uniqueKinds d) := by
        cases d <;> exact ⟨rfl, by decide⟩
      exact ⟨_, gives_unique d names, words.append (group names)⟩
  | key name => exact ⟨_, gives_key d name, (group [name]).cons rfl (by simp)⟩

/-! ### Conversions -/

theorem exists_written {written : Conversion} (hname : written.create.name ≠ "")
    (hcomments : d = .postgresql ∨ written.comments = [])
    (h : ∀ line, .column line ∈ written.create.elements →
      GivesClosed d (line.text (spellingOf d))) :
    ∃ kss, Written d written kss := by
  obtain ⟨kss, hkss, hclosed⟩ := exists_closedKinds fun e he =>
    givesClosed_element (d := d) fun line hline => h line (hline ▸ he)
  exact ⟨kss, hname, hcomments, hkss, hclosed⟩

/-- The declarations in a table of MySQL are those of its columns. -/
theorem columnLine_of_mem_mysql {options : Options} {line : ColumnLine}
    (h : .column line ∈ (Mysql.convert options t).create.elements) :
    ∃ c ∈ t.columns, Mysql.columnLine t c = line := by
  rcases List.mem_append.1 h with h | h
  · simpa using h
  · exfalso
    simp only [Mysql.keyElements, List.mem_append, List.mem_map, reduceCtorEq, and_false,
      exists_false, or_false] at h
    split at h <;> simp at h

/-- The declarations in a table of PostgreSQL are those of its columns. -/
theorem columnLine_of_mem_postgres {options : Options} {line : ColumnLine}
    (h : .column line ∈ (Postgres.convert options t).create.elements) :
    ∃ c ∈ t.columns, Postgres.columnLine t c = line := by
  rcases List.mem_append.1 h with h | h
  · simpa using h
  · exfalso
    simp only [Postgres.keyElements, List.mem_append, List.mem_map, reduceCtorEq, and_false,
      exists_false, or_false] at h
    split at h <;> simp at h

/-- A table is written with closed elements if what is copied from it is self-contained. -/
theorem exists_written_conversion {source : Dialect} (hname : t.name ≠ "")
    (h : SelfContained source t) (options : Options) :
    ∃ kss, Written source.other (conversion source.other options t) kss := by
  cases source with
  | postgresql =>
      apply exists_written hname (.inr rfl)
      intro line hline
      obtain ⟨c, hc, rfl⟩ := columnLine_of_mem_mysql hline
      refine givesClosed_columnLine ?_ fun text htext => ?_
      · exact givesClosed_mysqlType fun copy hcopy => h c hc copy (List.mem_append_left _ hcopy)
      · exact givesClosed_default_mysql (h c hc) ((Mysql.mem_clauses htext).2 text rfl)
  | mysql =>
      apply exists_written hname (.inl rfl)
      intro line hline
      obtain ⟨c, hc, rfl⟩ := columnLine_of_mem_postgres hline
      refine givesClosed_columnLine ?_ fun text htext => ?_
      · exact givesClosed_postgresType fun copy hcopy => h c hc copy (List.mem_append_left _ hcopy)
      · exact givesClosed_default_postgres (h c hc) ((Postgres.mem_clauses htext).2 text rfl)

/-! ### Scripts -/

/-- A script that is read creates a table. -/
theorem ne_nil_of_parseAll {script : String} {tables : List Table}
    (h : parseAll d script = .ok tables) : tables ≠ [] := by
  obtain ⟨tokens, -, h⟩ := tokens_of_parseAll h
  unfold tablesOfTokens at h
  dsimp only at h
  split at h
  · simp at h
  · simp at h
  · rename_i created hnil _
    obtain rfl := Except.ok.inj h
    intro he
    have hnames := names_applyAmong (commentsOf (rulesOf d) (statements tokens)) created
    rw [he, List.map_nil, eq_comm, List.map_eq_nil_iff] at hnames
    exact hnil hnames

theorem names_of_reads {source : List Char} {ps : List (Conversion × List (List TokenKind))}
    {tables : List Table} (h : List.Forall₂ (Reads d source) ps tables) :
    tables.map (·.name) = ps.map (·.1.create.name) := by
  induction h with
  | nil => rfl
  | @cons p table ps tables hreads _ ih =>
      obtain ⟨body, -, rfl⟩ := hreads
      have hname : (tableOf (rulesOf d) source p.1.create.name body).name = p.1.create.name :=
        name_tableOfDefinitions _ _ _
      rw [List.map_cons, List.map_cons, ih]
      exact congrArg (· :: _) hname

/-- What is written for tables from which self-contained texts are copied is read as tables of the
same names. -/
theorem parseAll_selfContained {source : Dialect} {tables : List Table} (hne : tables ≠ [])
    (hnames : ∀ t ∈ tables, t.name ≠ "") (h : ∀ t ∈ tables, SelfContained source t)
    (options : Options) :
    ∃ tables', parseAll source.other ("\n".intercalate
        (tables.map fun t => (convert (.outOf source) options t).sql)) = .ok tables' ∧
      tables'.map (·.name) = tables.map (·.name) := by
  have hwritten := fun t ht => exists_written_conversion (hnames t ht) (h t ht) options
  choose! kinds hkinds using hwritten
  obtain ⟨text, read, hreads, hparse⟩ := parseAll_written (d := source.other)
    (tables.map fun t => (conversion source.other options t, kinds t)) (by simpa using hne)
    (by simpa using hkinds)
  have hsql : ((tables.map fun t => (conversion source.other options t, kinds t)).map
      fun p => p.1.text (spellingOf source.other)) =
      tables.map fun t => (convert (.outOf source) options t).sql := by
    rw [List.map_map]
    cases source <;> rfl
  rw [hsql] at hparse
  refine ⟨_, hparse, ?_⟩
  rw [names_applyAmong, names_of_reads hreads, List.map_map]
  cases source <;> rfl

/-- The first conversion of a round trip and those that follow. -/
theorem hops_succ {options : Options} {n : Nat} {script : String} {tables : List Table}
    (hread : parseAll d script = .ok tables) :
    hops options (n + 1) d script =
      .ok ⟨.outOf d, tables, tables.map (convert (.outOf d) options)⟩ ::
        hops options n d.other
          ("\n".intercalate (tables.map fun t => (convert (.outOf d) options t).sql)) := by
  have hhop : hop d options script =
      .ok ⟨.outOf d, tables, tables.map (convert (.outOf d) options)⟩ := by
    rw [hop, hread]
    rfl
  rw [hops, hhop]
  dsimp only [Hop.script]
  rw [List.map_map]
  rfl

/-- A round trip has no error as long as every text that is copied on the way is self-contained. -/
theorem hops_selfContained {options : Options} {n : Nat} {script : String} {tables : List Table}
    (hread : parseAll d script = .ok tables)
    (h : ∀ done, .ok done ∈ hops options n d script → done.SelfContained) :
    ∀ result ∈ hops options n d script, ∃ done, result = .ok done := by
  induction n generalizing d script tables with
  | zero => simp [hops]
  | succ n ih =>
      have hdirection : (Direction.outOf d).source = d := by
        cases d <;> rfl
      rw [hops_succ hread] at h ⊢
      have hcopied : ∀ t ∈ tables, SelfContained (Direction.outOf d).source t :=
        h _ (List.mem_cons_self ..)
      rw [hdirection] at hcopied
      have hnamed : ∀ t ∈ tables, t.name ≠ "" := fun t ht => (wellRead_of_parseAll hread t ht).named
      obtain ⟨tables', hread', -⟩ :=
        parseAll_selfContained (ne_nil_of_parseAll hread) hnamed hcopied options
      intro result hresult
      rcases List.mem_cons.1 hresult with rfl | hresult
      · exact ⟨_, rfl⟩
      · exact ih hread' (fun done hdone => h done (List.mem_cons_of_mem _ hdone)) result hresult

/-- **Written scripts are accepted** unless a copied text is not self-contained: the text for one
table is read as one table of the same name, and no step of a round trip is an error. -/
theorem conversion_accepted {script : String} {tables : List Table}
    (hread : parseAll d script = .ok tables) (options : Options) :
    (∀ t ∈ tables, SelfContained d t →
      (∃ tokens, tokenize (rulesOf d.other) (convert (.outOf d) options t).sql.toList = .ok tokens) ∧
      ∃ t', parseAll d.other (convert (.outOf d) options t).sql = .ok [t'] ∧ t'.name = t.name) ∧
    ∀ n, (∀ done, .ok done ∈ hops options n d script → done.SelfContained) →
      ∀ result ∈ hops options n d script, ∃ done, result = .ok done := by
  refine ⟨fun t ht hcopied => ?_, fun n => hops_selfContained hread⟩
  have hnamed := (wellRead_of_parseAll hread t ht).named
  obtain ⟨tables', hparse, hnames⟩ := parseAll_selfContained (List.cons_ne_nil t [])
    (by simpa using hnamed) (by simpa using hcopied) options
  rw [List.map_singleton, String.intercalate_singleton] at hparse
  obtain ⟨t', rfl, hname⟩ := List.map_eq_singleton_iff.1 hnames
  obtain ⟨tokens, htokens, -⟩ := tokens_of_parseAll hparse
  exact ⟨⟨tokens, htokens⟩, t', hparse, hname⟩

/-- A script with an unknown type, parameters that are kept, and an expression. -/
def placeScript : String :=
  "CREATE TABLE places (spot point(3), area numeric(10, 2) DEFAULT (1 + 2), tags text[])"

/-- The table of this script. -/
def places : Table :=
  { dialect := .postgresql
    name := "places"
    columns :=
      [{ name := "spot", rawType := "point", length := some "3" },
        { name := "area", rawType := "numeric", length := some "10", precision := some "2"
          defaultValue := some "(1 + 2)" },
        { name := "tags", rawType := "text[]" }]
    warnings := [(Notice.keptType "spot" "POINT").message] }

/-- The places can be written in MySQL, and then in PostgreSQL again. -/
theorem places_accepted :
    (∃ t', parseAll .mysql (convert .pgToMysql {} places).sql = .ok [t'] ∧ t'.name = "places") ∧
      ∀ result ∈ hops {} 2 .postgresql placeScript, ∃ done, result = .ok done := by
  have hread : parseAll .postgresql placeScript = .ok [places] := by decide +kernel
  have hcopied : SelfContained .postgresql places := by decide +kernel
  have hdone : ∀ done ∈ (hops {} 2 .postgresql placeScript).filterMap Except.toOption,
      done.SelfContained := by
    decide +kernel
  obtain ⟨hone, hall⟩ := conversion_accepted hread {}
  refine ⟨(hone places (by simp) hcopied).2, hall 2 fun done hmem => ?_⟩
  exact hdone done (List.mem_filterMap.2 ⟨_, hmem, rfl⟩)

/-- A script with an operator that starts a comment in MySQL. -/
def sharpScript : String := "CREATE TABLE t (a int DEFAULT (1 # 2))"

/-- The table of this script. -/
def sharps : Table :=
  { dialect := .postgresql
    name := "t"
    columns := [{ name := "a", rawType := "int", defaultValue := some "(1 # 2)" }] }

/-- The body of a table that is not closed. -/
def unclosed : ParseError := ⟨.unbalancedBody .openBody "t", ⟨1, 18, 17⟩⟩

/-- The sharp is copied, and MySQL refuses what is written. -/
theorem sharps_not_accepted :
    parseAll .postgresql sharpScript = .ok [sharps] ∧
      parseAll .mysql (convert .pgToMysql {} sharps).sql = .error unclosed ∧
      .error unclosed ∈ hops {} 2 .postgresql sharpScript := by
  refine ⟨?_, ?_, ?_⟩ <;> decide +kernel

end Schemata.Ddl
