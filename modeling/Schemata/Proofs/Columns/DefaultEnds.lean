import Schemata.Proofs.Columns.ClauseOrder
import Schemata.Proofs.Sql.Additions
import Schemata.Proofs.Sql.Descriptors

/-! # What follows a default

The default of a column is the text of one operand.  After it and its casts the declaration ends, or a
clause starts, or a token stands there that starts no clause: it is passed over, and no notice is on it
(`readAttribute_of_opensClause`).  The notices on a column are on dropped clauses and on an unknown type
(`notices_columnDefinition?`), so an expression that goes on after its first operand is cut off there, and
nothing tells of it (`defaultEnds_of_parseAll`). -/

namespace Schemata.Sql

open Schemata.Text

variable {d : Dialect} {rules : Rules} {source : List Char} {t : Token} {r ts tail : List Token}
  {typed c : Column} {raw : String} {primary unique : Bool} {notices : List Notice}

/-! ### Clauses -/

/-- The words that start a clause. -/
def clauseWords : List String :=
  ["null", "default", "key", "unique", "auto_increment", "autoincrement", "unsigned", "signed",
    "zerofill", "comment", "generated", "as", "references", "match", "on", "check", "constraint",
    "collate", "charset"]

/-- The pairs of words that start a clause together. -/
def clausePairs : List (String × String) := [("not", "null"), ("primary", "key"), ("character", "set")]

/-- Whether a clause starts here. -/
def opensClause (ts : List Token) : Bool :=
  startsWithOneOf clauseWords ts || clausePairs.any fun (first, second) =>
    (afterWords [first, second] ts).isSome

/-- What is left where no clause starts: one token is passed over, or a group in parentheses. -/
def afterUnknown (t : Token) (r : List Token) : List Token :=
  if t.kind = .lparen then skipGroup (t :: r) else r

/-- The keywords of a clause are not there where no clause starts. -/
theorem keyword?_of_opensClause (h : opensClause (t :: r) = false) :
    (∀ word ∈ clauseWords, t.keyword? ≠ some word) ∧
      ∀ pair ∈ clausePairs, t.keyword? = some pair.1 → afterWords [pair.2] r = none := by
  obtain ⟨hwords, hpairs⟩ := Bool.or_eq_false_iff.1 h
  constructor
  · intro word hmem hkey
    have hstarts : startsWithOneOf clauseWords (t :: r) :=
      List.any_eq_true.2 ⟨word, hmem, by rw [Token.isKeyword, hkey, beq_self_eq_true]⟩
    exact Bool.false_ne_true (hwords.symm.trans hstarts)
  · intro pair hmem hkey
    have hnone := List.any_eq_false.1 hpairs pair hmem
    have hfirst : afterWords [pair.1, pair.2] (t :: r) = afterWords [pair.2] r := by
      rw [afterWords, Token.isKeyword, hkey, if_pos (beq_self_eq_true _)]
    simpa [hfirst] using hnone

/-- **Where no clause starts a token is passed over**, or a group in parentheses. -/
theorem readAttribute_of_opensClause (rules : Rules) (source : List Char)
    (h : opensClause (t :: r) = false) :
    readAttribute rules source t r = (.passedOver, afterUnknown t r) := by
  obtain ⟨hwords, hpairs⟩ := keyword?_of_opensClause h
  have hword : ∀ {w : String}, t.keyword? = some w → afterUnknown t r = r := by
    intro w hw
    obtain ⟨w', hw', -⟩ := Option.map_eq_some_iff.1 hw
    rw [afterUnknown, if_neg (by simp [kind_of_word? hw'])]
  unfold readAttribute
  split
  -- the words of a pair, without the second one
  case h_1 hkey =>
    rw [hpairs ("not", "null") (by decide) hkey, hword hkey]
  case h_4 hkey =>
    rw [hpairs ("primary", "key") (by decide) hkey, hword hkey]
  case h_20 hkey =>
    rw [hpairs ("character", "set") (by decide) hkey, hword hkey]
  case h_21 => rw [hword ‹t.keyword? = some _›]
  case h_22 =>
    rw [afterUnknown, skipGroup]
    by_cases hparen : t.kind = .lparen
    · rw [if_pos hparen]
      cases hgroup : parenGroup? (t :: r) with
      | some group => rfl
      | none =>
          rw [parenGroup?, if_pos hparen] at hgroup
          split at hgroup <;> simp at hgroup
    · rw [if_neg hparen, parenGroup?_of_ne hparen]
  all_goals exact absurd ‹t.keyword? = some _› (hwords _ (by decide))

/-! ### The last default -/

/-- Whether an attribute decides on the default. -/
def Attribute.isDefault (a : Attribute) : Prop := a.clause? = some .defaultTo

/-- An attribute that does not decide on the default leaves it. -/
theorem defaultValue_add {a : Attribute} (ha : ¬a.isDefault) (dec : Declaration) :
    (dec.add a).column.defaultValue = dec.column.defaultValue := by
  cases a with
  | defaultTo text => exact absurd rfl ha
  | nextValue => exact absurd rfl ha
  | _ => rfl

/-- A type gives no default. -/
theorem defaultValue_columnOfType? {name : String} (h : columnOfType? rules source name ts = some (c, tail)) :
    c.defaultValue = none := by
  obtain ⟨-, _, first, words, dimensions, -, -, rfl | ⟨params, -, rfl⟩⟩ := columnOfType?_cases h
  · rfl
  · rcases withParameters_cases source params name "" with ⟨members, he⟩ | ⟨length, precision, he, -⟩ <;>
      rw [he]

/-- How the last default is read: it starts with `t`, and what is left of it is read without another. -/
structure LastDefault (rules : Rules) (source : List Char) (ts : List Token) (raw : String)
    (before : List Token) (t : Token) (r : List Token) : Prop where
  splits : ts = before ++ t :: r
  gives : (readAttribute rules source t r).1 = .defaultTo raw
  reached : ∃ as, attributes rules source ts = as ++ attributes rules source (t :: r)
  last : ∀ a ∈ attributes rules source (readAttribute rules source t r).2, ¬a.isDefault

/-- **A default is the last one that is given**, or it was there before the attributes. -/
theorem lastDefault_cases {dec : Declaration}
    (h : ((attributes rules source ts).foldl Declaration.add dec).column.defaultValue = some raw) :
    (∃ before t r, LastDefault rules source ts raw before t r) ∨
      dec.column.defaultValue = some raw ∧ ∀ a ∈ attributes rules source ts, ¬a.isDefault := by
  fun_induction attributes rules source ts generalizing dec with
  | case1 => exact .inr ⟨h, by simp⟩
  | case2 t r =>
      rename_i ih
      have hall : attributes rules source (t :: r) = (readAttribute rules source t r).1 ::
          attributes rules source (readAttribute rules source t r).2 := by
        rw [attributes]
      rcases ih h with ⟨before, t', r', hlast⟩ | ⟨hbefore, hnone⟩
      · -- a later attribute gives it
        obtain ⟨taken, htaken⟩ := (readAttribute_suffix rules source t r).trans (List.suffix_cons t r)
        obtain ⟨as, has⟩ := hlast.reached
        refine .inl ⟨taken ++ before, t', r', ?_, hlast.gives,
          ⟨(readAttribute rules source t r).1 :: as, ?_⟩, hlast.last⟩
        · rw [List.append_assoc, ← hlast.splits]
          exact htaken.symm
        · rw [hall, has, List.cons_append]
      · by_cases hdefault : (readAttribute rules source t r).1.isDefault
        · refine .inl ⟨[], t, r, rfl, ?_, ⟨[], rfl⟩, hnone⟩
          rw [Declaration.add.eq_def] at hbefore
          cases hread : (readAttribute rules source t r).1 with
          | defaultTo text =>
              rw [hread] at hbefore
              rw [← Option.some.inj hbefore]
          | nextValue =>
              rw [hread] at hbefore
              simp at hbefore
          | _ => simp [hread, Attribute.isDefault, Attribute.clause?] at hdefault
        · rw [defaultValue_add hdefault] at hbefore
          refine .inr ⟨hbefore, fun a ha => ?_⟩
          rcases List.mem_cons.1 ha with rfl | ha
          · exact hdefault
          · exact hnone a ha

/-- **The tokens of a default**: its value is the operand after the word, and casts may follow. -/
theorem LastDefault.exists_value {before : List Token} (h : LastDefault rules source ts raw before t r) :
    ∃ value after, r = value ++ after ∧ (value ≠ [] ∧ raw = sourceText source value) ∧
      (∃ u us, skipSign r = u :: us ∧ skipOperand (u :: us) = after) ∧
      attributes rules source (t :: r) = .defaultTo raw :: attributes rules source (skipCasts rules after) ∧
      ∀ a ∈ attributes rules source (skipCasts rules after), ¬a.isDefault := by
  obtain ⟨value, u, us, rfl, hsign, hne, htext⟩ :=
    exists_operand (defaultAttribute_of_readAttribute h.gives)
  have hread : readAttribute rules source t (value ++ skipOperand (u :: us)) =
      defaultAttribute rules source (value ++ skipOperand (u :: us)) :=
    readAttribute_default (keyword?_of_defaultTo h.gives)
  have hrest : (defaultAttribute rules source (value ++ skipOperand (u :: us))).2 =
      skipCasts rules (skipOperand (u :: us)) := by
    unfold defaultAttribute
    rw [hsign]
    dsimp only
    split <;> rfl
  have hlast := h.last
  rw [hread, hrest] at hlast
  refine ⟨value, _, rfl, ⟨hne, htext⟩, ⟨u, us, hsign, rfl⟩, ?_, hlast⟩
  rw [attributes, h.gives, hread, hrest]

/-! ### Notices -/

/-- The notice on an attribute. -/
def Attribute.notice? (name : String) : Attribute → Option Notice
  | .dropped clause => some (.dropped name clause)
  | _ => none

/-- The notices on the attributes of a column come in their order. -/
theorem notices_foldl_add (as : List Attribute) (dec : Declaration) :
    (as.foldl Declaration.add dec).notices =
      dec.notices ++ as.filterMap (Attribute.notice? dec.column.name) := by
  induction as generalizing dec with
  | nil => simp
  | cons a as ih =>
      have hname : (dec.add a).column.name = dec.column.name := (foldl_add_column [a] dec).1
      rw [List.foldl_cons, ih, hname, List.filterMap_cons]
      cases a with
      | dropped clause => simp [Declaration.add, Attribute.notice?]
      | _ => rfl

/-- **The notices on a column** are on its dropped clauses and on its type. -/
theorem notices_columnDefinition? (h : columnDefinition? rules source ts =
      some (.column c primary unique notices)) :
    ∃ tail typed, Declares rules source ts tail typed c ∧
      notices = (attributes rules source tail).filterMap (Attribute.notice? c.name) ++
        Declaration.typeNotices rules c := by
  obtain ⟨tail, typed, c', declaration, hdeclares, rfl, hdefinition⟩ := columnDefinition?_eq_some h
  obtain ⟨rfl, -, -, rfl⟩ := Definition.column.inj hdefinition
  refine ⟨tail, typed, hdeclares, ?_⟩
  rw [notices_foldl_add, List.nil_append, hdeclares.settled,
    settle_keeps (f := Column.name) fun _ => rfl, (foldl_add_column _ _).1]

theorem mem_notices {as : List Attribute} {n : Notice}
    (h : n ∈ as.filterMap (Attribute.notice? c.name) ++ Declaration.typeNotices rules c) :
    (∃ clause, n = .dropped c.name clause) ∨ n = .keptType c.name (upper c.rawType) := by
  rcases List.mem_append.1 h with h | h
  · obtain ⟨a, -, ha⟩ := List.mem_filterMap.1 h
    cases a with
    | dropped clause => exact .inl ⟨clause, (Option.some.inj ha).symm⟩
    | _ => simp [Attribute.notice?] at ha
  · unfold Declaration.typeNotices at h
    split at h
    · simp at h
    · exact .inr (List.mem_singleton.1 h)

/-- There is no notice on a column exactly if nothing is dropped and its type is known. -/
theorem notices_eq_nil_iff {as : List Attribute} :
    as.filterMap (Attribute.notice? c.name) ++ Declaration.typeNotices rules c = [] ↔
      (∀ clause, .dropped clause ∉ as) ∧ SqlType.isKnown rules.dialect c.rawType := by
  rw [List.append_eq_nil_iff, List.filterMap_eq_nil_iff, Declaration.typeNotices]
  refine and_congr ⟨fun h clause hmem => ?_, fun h a ha => ?_⟩ ?_
  · simpa [Attribute.notice?] using h _ hmem
  · cases a with
    | dropped clause => exact absurd ha (h clause)
    | _ => rfl
  · simp

/-! ### Tables -/

/-- The notices on a column are among the warnings of its table. -/
theorem mem_warnings_foldl_add {parts : List (List Token)} (hmem : ts ∈ parts)
    (h : Definition.ofTokens rules source ts = .column c primary unique notices) (table : Table) :
    ∀ n ∈ notices, n.message ∈
      ((parts.map (Definition.ofTokens rules source)).foldl Table.add table).warnings := by
  intro n hn
  obtain ⟨before, after, rfl⟩ := List.append_of_mem hmem
  rw [List.map_append, List.foldl_append, List.map_cons, List.foldl_cons, h]
  refine (extends_foldl_add rules source after _).1.warnings.subset (List.mem_append.2 (.inr ?_))
  exact List.mem_map_of_mem hn

theorem warnings_tableOf (rules : Rules) (source : List Char) (name : String) (body : List Token) :
    (((splitDefinitions body).map (Definition.ofTokens rules source)).foldl Table.add
      { dialect := rules.dialect, name }).warnings <+: (tableOf rules source name body).warnings := by
  unfold tableOf
  dsimp only
  split
  · exact List.prefix_append _ _
  · exact List.prefix_rfl

theorem warnings_applyTo (comment : Comment) (table : Table) :
    table.warnings <+: (comment.applyTo table).warnings := by
  unfold Comment.applyTo
  split
  · exact List.prefix_rfl
  · split
    · exact List.prefix_append _ _
    · exact List.prefix_rfl

/-- A run of tokens declares a column of a table, and the notices on it are among the warnings. -/
def DeclaredIn (d : Dialect) (source : List Char) (table : Table) (c : Column) : Prop :=
  ∃ run primary unique notices, IsRun d source run ∧
    columnDefinition? (rulesOf d) source run = some (.column c primary unique notices) ∧
    ∀ n ∈ notices, n.message ∈ table.warnings

theorem DeclaredIn.mono {table table' : Table} (h : DeclaredIn d source table c)
    (hwarnings : table.warnings <+: table'.warnings) : DeclaredIn d source table' c := by
  obtain ⟨run, primary, unique, notices, hrun, hcolumn, hnotices⟩ := h
  exact ⟨run, primary, unique, notices, hrun, hcolumn, fun n hn => hwarnings.subset (hnotices n hn)⟩

/-- **Every column of a script is declared in it**, and its table has the notices on it. -/
theorem declaredIn_of_parseAll {script : String} {tables : List Table}
    (h : parseAll d script = .ok tables) :
    ∀ table ∈ tables, ∀ c ∈ table.columns, DeclaredIn d script.toList table c := by
  refine forall_of_parseAll h ?_ (fun _ comment table htable c hc => ?_) (fun table name htable c hc => ?_)
  · rintro tokens htokens table ⟨name, body, comment, -, hbody, rfl⟩ c hc
    rw [columns_tableOf] at hc
    rcases mem_columns_foldl_add hc with hc | ⟨primary, unique, notices, hmem⟩
    · simp at hc
    · obtain ⟨run, hrun, hof⟩ := List.mem_map.1 hmem
      exact ⟨run, primary, unique, notices,
        ⟨tokens, htokens, (infix_of_mem_splitDefinitions hrun).trans hbody⟩,
        columnDefinition?_of_ofTokens hof, fun n hn =>
          (warnings_tableOf _ _ _ _).subset (mem_warnings_foldl_add hrun hof _ n hn)⟩
  · rw [columns_applyTo] at hc
    exact (htable c hc).mono (warnings_applyTo comment table)
  · exact (htable c hc).mono (List.prefix_append _ _)

/-! ### Ends of defaults -/

/-- Where the default `raw` of the column `c` of a table ends: it is the text of the tokens `value`, and
after their casts, at `skipCasts (rulesOf d) after`, the attributes go on. -/
structure DefaultEnds (d : Dialect) (source : List Char) (table : Table) (c : Column) (raw : String)
    (before : List Token) (word : Token) (value after : List Token) (notices : List Notice) : Prop where
  /-- The column is declared by a run of the tokens that has the default after its type. -/
  declared : ∃ run typed primary unique, IsRun d source run ∧
    Declares (rulesOf d) source run (before ++ word :: (value ++ after)) typed c ∧
    columnDefinition? (rulesOf d) source run = some (.column c primary unique notices)
  keyword : word.isKeyword "default"
  text : value ≠ [] ∧ raw = sourceText source value
  /-- The value is one operand, which may have a sign. -/
  operand : ∃ t r, skipSign (value ++ after) = t :: r ∧ skipOperand (t :: r) = after
  /-- What follows the casts is read after the default, and has no other default. -/
  follows : (∃ as, attributes (rulesOf d) source (before ++ word :: (value ++ after)) =
      as ++ .defaultTo raw :: attributes (rulesOf d) source (skipCasts (rulesOf d) after)) ∧
    ∀ a ∈ attributes (rulesOf d) source (skipCasts (rulesOf d) after), ¬a.isDefault
  /-- If no clause starts there, a token or a group is passed over, which says nothing. -/
  cut : ∀ t r, skipCasts (rulesOf d) after = t :: r → opensClause (t :: r) = false →
    attributes (rulesOf d) source (t :: r) = .passedOver :: attributes (rulesOf d) source (afterUnknown t r)
  /-- The notices on the column are warnings of its table that name it. -/
  recorded : ∀ n ∈ notices, n.message ∈ table.warnings ∧
    ((∃ clause, n = .dropped c.name clause) ∨ n = .keptType c.name (upper c.rawType))
  /-- They are on clauses that are dropped and on a type that is not known, and on nothing else. -/
  silent : notices = [] ↔
    (∀ clause, .dropped clause ∉ attributes (rulesOf d) source (before ++ word :: (value ++ after))) ∧
      SqlType.isKnown d c.rawType

/-- **A default ends after its first operand**, for every column of every script.  What follows it and its
casts is nothing, or a clause, or is passed over, and then a warning names the column only if one of its
clauses is dropped or its type is not known. -/
theorem defaultEnds_of_parseAll {script : String} {tables : List Table} {table : Table}
    (h : parseAll d script = .ok tables) (htable : table ∈ tables) (hc : c ∈ table.columns)
    (hraw : c.defaultValue = some raw) :
    ∃ before word value after notices,
      DefaultEnds d script.toList table c raw before word value after notices := by
  obtain ⟨run, primary, unique, notices, hrun, hcolumn, hwarnings⟩ :=
    declaredIn_of_parseAll h table htable c hc
  obtain ⟨tail, typed, hdeclares, hnotices⟩ := notices_columnDefinition? hcolumn
  have hdialect : (rulesOf d).dialect = d := by cases d <;> rfl
  have hdefault : ((attributes (rulesOf d) script.toList tail).foldl Declaration.add
      { column := typed }).column.defaultValue = some raw := by
    rw [← settle_keeps (f := Column.defaultValue) (fun _ => rfl) (rulesOf d), ← hdeclares.settled, hraw]
  have hplain : typed.defaultValue = none := by
    obtain ⟨_, _, _, -, -, -, htype⟩ := hdeclares.reads
    exact defaultValue_columnOfType? htype
  rcases lastDefault_cases hdefault with ⟨before, word, r, hlast⟩ | ⟨hbefore, -⟩
  · obtain ⟨value, after, rfl, htext, hoperand, hattributes, hno⟩ := hlast.exists_value
    obtain rfl := hlast.splits
    obtain ⟨as, has⟩ := hlast.reached
    refine ⟨before, word, value, after, notices, ?_⟩
    exact
      { declared := ⟨run, typed, primary, unique, hrun, hdeclares, hcolumn⟩
        keyword := by rw [Token.isKeyword, keyword?_of_defaultTo hlast.gives, beq_self_eq_true]
        text := htext
        operand := hoperand
        follows := ⟨⟨as, by rw [has, hattributes]⟩, hno⟩
        cut := fun t r _ hnone => by rw [attributes, readAttribute_of_opensClause _ _ hnone]
        recorded := fun n hn => ⟨hwarnings n hn, mem_notices (hnotices ▸ hn)⟩
        silent := by rw [hnotices, notices_eq_nil_iff, hdialect] }
  · rw [hplain] at hbefore
    simp at hbefore

/-- A slice of the tokens is a run of them. -/
theorem isRun_of_slice {i n : Nat} (h : (tokenize (rulesOf d) source).toOption.map
    (fun tokens => (tokens.drop i).take n) = some ts) : IsRun d source ts := by
  obtain ⟨tokens, htokens, rfl⟩ := Option.map_eq_some_iff.1 h
  cases hall : tokenize (rulesOf d) source with
  | error e => simp [hall, Except.toOption] at htokens
  | ok all =>
      obtain rfl : all = tokens := by simpa [hall, Except.toOption] using htokens
      exact ⟨all, hall, (List.take_prefix _ _).isInfix.trans (List.drop_suffix _ _).isInfix⟩

/-- A script with a default that ends at a clause and one that goes on with an operator. -/
def visitScript : String :=
  "CREATE TABLE visits (seen timestamp DEFAULT now()::timestamp NOT NULL, " ++
    "until timestamp DEFAULT now() + interval '1 day')"

/-- The table of the script. -/
def visits : Table :=
  { dialect := .postgresql
    name := "visits"
    columns :=
      [{ name := "seen", rawType := "timestamp", notNull := true, defaultValue := some "now()" },
        { name := "until", rawType := "timestamp", defaultValue := some "now()" }] }

theorem parseAll_visits : parseAll .postgresql visitScript = .ok [visits] := by
  decide +kernel

theorem defaultEnds_seen : ∃ tables, parseAll .postgresql visitScript = .ok tables ∧
    ∃ table ∈ tables, ∃ c ∈ table.columns, c.name = "seen" ∧ c.defaultValue = some "now()" ∧
      ∃ before word value after notices,
        DefaultEnds .postgresql visitScript.toList table c "now()" before word value after notices := by
  have htable : visits ∈ [visits] := List.mem_singleton.2 rfl
  have hc : visits.columns[0] ∈ visits.columns := List.getElem_mem _
  exact ⟨[visits], parseAll_visits, visits, htable, _, hc, rfl, rfl,
    defaultEnds_of_parseAll parseAll_visits htable hc rfl⟩

/-- The tokens of the second default. -/
def untilValue : List Token :=
  [⟨.word "now", ⟨95, 98⟩⟩, ⟨.lparen, ⟨98, 99⟩⟩, ⟨.rparen, ⟨99, 100⟩⟩]

/-- What follows it. -/
def untilRest : List Token :=
  [⟨.symbol '+', ⟨101, 102⟩⟩, ⟨.word "interval", ⟨103, 111⟩⟩, ⟨.stringLit "1 day", ⟨112, 119⟩⟩]

/-- The second default is cut off before its operator, and nothing tells of it. -/
theorem until_cut_off : ∃ tables, parseAll .postgresql visitScript = .ok tables ∧
    ∃ table ∈ tables, ∃ c ∈ table.columns, table.warnings = [] ∧ ∃ word,
      DefaultEnds .postgresql visitScript.toList table c "now()" [] word untilValue untilRest [] ∧
      skipCasts postgresRules untilRest = untilRest ∧ opensClause untilRest = false := by
  have hc : visits.columns[1] ∈ visits.columns := List.getElem_mem _
  have hrest : skipCasts postgresRules untilRest = untilRest := skipCasts_of_ne (by decide)
  have hattributes : attributes postgresRules visitScript.toList untilRest =
      [.passedOver, .passedOver, .passedOver] := by decide +kernel
  have hall : attributes postgresRules visitScript.toList
      (⟨.word "DEFAULT", ⟨87, 94⟩⟩ :: (untilValue ++ untilRest)) =
        [.defaultTo "now()", .passedOver, .passedOver, .passedOver] := by decide +kernel
  have hrun : IsRun .postgresql visitScript.toList (⟨.word "until", ⟨71, 76⟩⟩ ::
      ⟨.word "timestamp", ⟨77, 86⟩⟩ :: ⟨.word "DEFAULT", ⟨87, 94⟩⟩ :: (untilValue ++ untilRest)) :=
    isRun_of_slice (i := 15) (n := 9) (by decide +kernel)
  have hread : columnOfType? postgresRules visitScript.toList "until" (⟨.word "timestamp", ⟨77, 86⟩⟩ ::
      ⟨.word "DEFAULT", ⟨87, 94⟩⟩ :: (untilValue ++ untilRest)) =
        some ({ name := "until", rawType := "timestamp" },
          ⟨.word "DEFAULT", ⟨87, 94⟩⟩ :: (untilValue ++ untilRest)) := by decide +kernel
  have hcolumn : columnDefinition? postgresRules visitScript.toList (⟨.word "until", ⟨71, 76⟩⟩ ::
      ⟨.word "timestamp", ⟨77, 86⟩⟩ :: ⟨.word "DEFAULT", ⟨87, 94⟩⟩ :: (untilValue ++ untilRest)) =
        some (.column visits.columns[1] false false []) := by
    have hident : Token.ident? ⟨.word "until", ⟨71, 76⟩⟩ = some "until" := rfl
    have hnamed : "until".isEmpty = false := by decide
    simp only [columnDefinition?, hident, hnamed, Bool.false_eq_true, if_false, hread, Option.map_some, hall]
    decide +kernel
  refine ⟨[visits], parseAll_visits, visits, List.mem_singleton.2 rfl, _, hc, rfl,
    ⟨.word "DEFAULT", ⟨87, 94⟩⟩, ?_, hrest, by decide⟩
  exact
    { declared := ⟨_, { name := "until", rawType := "timestamp" }, false, false, hrun,
        ⟨⟨_, _, "until", rfl, rfl, by decide, hread⟩, by
          rw [show attributes (rulesOf .postgresql) _ ([] ++ _) = _ from hall]
          rfl⟩, hcolumn⟩
      keyword := by decide
      text := ⟨by decide, by decide +kernel⟩
      operand := ⟨_, _, rfl, by decide⟩
      follows := by
        rw [show attributes (rulesOf .postgresql) _ ([] ++ _) = _ from hall,
          show skipCasts (rulesOf .postgresql) _ = _ from hrest,
          show attributes (rulesOf .postgresql) _ untilRest = _ from hattributes]
        exact ⟨⟨[], rfl⟩, by simp [Attribute.isDefault, Attribute.clause?]⟩
      cut := fun t r _ hnone => by rw [attributes, readAttribute_of_opensClause _ _ hnone]
      recorded := by simp
      silent := by
        rw [show attributes (rulesOf .postgresql) _ ([] ++ _) = _ from hall]
        exact ⟨fun _ => ⟨by simp, by decide +kernel⟩, fun _ => rfl⟩ }

end Schemata.Sql
