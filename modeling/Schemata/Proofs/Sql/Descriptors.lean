import Mathlib.Data.List.Find
import Schemata.Proofs.Sql.Parsed
import Schemata.Proofs.Sql.Places

/-! # Invariants of table descriptions

A script is read into descriptions that keep to a few rules (`describes_of_parseAll`), whatever the
order of its definitions and statements: columns have names and canonical types, a numbered column
refuses nulls, parameters and members exclude each other, keys name declared columns in their
spelling or no column at all, and comments belong to declared columns. -/

namespace Schemata.Text

/-! ### Lower case -/

theorem isUpper_toLower (c : Char) : c.toLower.isUpper = false := by
  cases hu : c.isUpper with
  | false => rwa [toLower_of_not_isUpper hu]
  | true =>
      obtain ⟨hlow, hhigh⟩ := isUpper_iff_toNat.1 hu
      rw [← Bool.not_eq_true, isUpper_iff_toNat, toNat_toLower hu]
      omega

theorem blankSeparated_ne_nil {cs : List Char} {c : Char} (hc : c ∈ cs) (hblank : isBlank c = false) :
    blankSeparated cs ≠ [] := by
  fun_induction blankSeparated cs with
  | case1 => simp at hc
  | case2 e he =>
      obtain rfl := List.mem_singleton.1 hc
      simp [he] at hblank
  | case3 => simp
  | case4 e f r he ih =>
      rcases List.mem_cons.1 hc with rfl | hc
      · simp [he] at hblank
      · exact ih hc
  | case5 => simp
  | case6 => simp
  | case7 => simp

end Schemata.Text

namespace Schemata.SqlType

open Schemata.Text

/-! ### Canonical names -/

/-- A text without upper-case letters of ASCII. -/
def IsLower (s : String) : Prop := ∀ c ∈ s.toList, c.isUpper = false

theorem isLower_canonical (name : String) : IsLower (canonical name) := by
  have table : ∀ e ∈ synonyms, ∀ c ∈ e.2.toList, c.isUpper = false := by decide
  obtain ⟨collapsed, hcollapsed, ⟨short, hmem, hname⟩ | hname⟩ := canonical_cases name
  · rw [hname]
    exact table (collapsed, short) hmem
  · intro c hc
    rw [hname, hcollapsed, asciiLower, String.toList_ofList] at hc
    obtain ⟨e, -, rfl⟩ := List.mem_map.1 hc
    exact isUpper_toLower e

theorem canonical_ne_empty {name : String} {c : Char} (hc : c ∈ name.toList)
    (hblank : isBlank c = false) : canonical name ≠ "" := by
  have table : ∀ e ∈ synonyms, e.2 ≠ "" := by decide
  obtain ⟨collapsed, hcollapsed, ⟨short, hmem, hname⟩ | hname⟩ := canonical_cases name
  · rw [hname]
    exact table (collapsed, short) hmem
  · obtain ⟨w, words, hwords⟩ := List.exists_cons_of_ne_nil (blankSeparated_ne_nil hc hblank)
    have hmem : w ∈ blankSeparated name.toList := by simp [hwords]
    have hw : w ≠ [] := (mem_blankSeparated hmem).1
    rw [hname, hcollapsed, hwords]
    intro he
    have hnil := congrArg String.toList he
    rw [asciiLower, String.toList_ofList, String.toList_intercalate] at hnil
    cases words <;> simp [List.intercalate_cons_cons, hw] at hnil

end Schemata.SqlType

namespace Schemata.Sql

open Schemata.Text Schemata.SqlType

variable {d : Dialect} {rules : Rules} {source : List Char} {t : Token} {ts : List Token}

/-! ### Words of the source -/

/-- A bare word of a source has a character that is not blank. -/
theorem exists_not_blank {tokens : List Token} (h : tokenize rules source = .ok tokens)
    (ht : t ∈ tokens) {text : String} (htext : t.word? = some text) :
    ∃ c ∈ text.toList, isBlank c = false := by
  obtain ⟨w, rest, -, hlexes⟩ := exists_lexeme h ht
  have hkind : t.kind = .word text := by
    unfold Token.word? at htext
    split at htext <;> simp_all
  rw [hkind] at hlexes
  obtain rfl : w = text.toList := hlexes.spelled rfl
  obtain ⟨c, r, htext, hblank, -⟩ := hlexes
  exact ⟨c, by simp [htext], hblank⟩

/-! ### Columns -/

/-- The type of a column as it is read: lower case, with parameters or members but not both. -/
structure TypedColumn (c : Column) : Prop where
  typed : c.rawType ≠ ""
  lower : IsLower c.rawType
  precision : c.precision.isSome → c.length.isSome
  members : c.members ≠ [] → c.length = none ∧ c.precision = none

theorem withParameters_cases (source : List Char) (params : List Token) (name raw : String) :
    (∃ members, withParameters source params { name, rawType := raw } =
        { name, rawType := raw, members }) ∨
      ∃ length precision, withParameters source params { name, rawType := raw } =
          { name, rawType := raw, length, precision } ∧ (precision.isSome → length.isSome) := by
  unfold withParameters
  dsimp only
  split
  · exact .inl ⟨_, rfl⟩
  · refine .inr ⟨_, _, rfl, fun h => ?_⟩
    cases hgroups : splitDefinitions params with
    | nil => simp [hgroups] at h
    | cons group groups => simp

/-- The name of a type has the characters of its first word. -/
theorem mem_toList_intercalate {first : String} {words : List String} {c : Char}
    (hc : c ∈ first.toList) : c ∈ (" ".intercalate (first :: words)).toList := by
  rw [String.toList_intercalate, List.map_cons]
  cases words with
  | nil => simpa using hc
  | cons word words =>
      rw [List.map_cons, List.intercalate_cons_cons]
      simp [hc]

theorem isLower_typeName (words : List String) (n : Nat) : IsLower (typeName words n) := by
  intro c hc
  rw [typeName, String.toList_append, String.toList_join, List.mem_append, List.mem_flatMap] at hc
  rcases hc with hc | ⟨mark, hmark, hc⟩
  · exact isLower_canonical _ c hc
  · have marks : ∀ c ∈ "[]".toList, c.isUpper = false := by decide
    rw [List.eq_of_mem_replicate hmark] at hc
    exact marks c hc

theorem typed_columnOfType? {name : String} {rest : List Token} {c : Column}
    (hwords : ∀ t ∈ ts, ∀ text, t.word? = some text → ∃ ch ∈ text.toList, isBlank ch = false)
    (h : columnOfType? rules source name ts = some (c, rest)) : TypedColumn c := by
  obtain ⟨-, t, first, words, n, ht, hfirst, hc⟩ := columnOfType?_cases h
  obtain ⟨ch, hch, hblank⟩ := hwords t ht first hfirst
  have hne : typeName (first :: words) n ≠ "" := fun he =>
    canonical_ne_empty (mem_toList_intercalate hch) hblank (String.append_eq_empty_iff.1 he).1
  have hlower := isLower_typeName (first :: words) n
  rcases hc with rfl | ⟨params, -, rfl⟩
  · exact ⟨hne, hlower, by simp, by simp⟩
  · rcases withParameters_cases source params name "" with ⟨members, he⟩ | ⟨l, p, he, hlp⟩
    · rw [he]
      exact ⟨hne, hlower, by simp, fun _ => ⟨rfl, rfl⟩⟩
    · rw [he]
      exact ⟨hne, hlower, hlp, by simp⟩

/-- Every column of a script has a type: no attribute changes what its declaration says. -/
theorem typedColumn_of_parseAll {script : String} {tables : List Table}
    (h : parseAll d script = .ok tables) {t : Table} (ht : t ∈ tables) {c : Column}
    (hc : c ∈ t.columns) : TypedColumn c := by
  refine forall_columns_of_parseAll h (P := TypedColumn) ?_ ?_ ?_ t ht c hc
  · rintro ts ⟨tokens, htokens, hrun⟩ name c rest hread
    exact typed_columnOfType? (fun t ht text => exists_not_blank htokens (hrun.subset ht)) hread
  · intro t r _ dec hdec
    cases (readAttribute (rulesOf d) script.toList t r).1 <;>
      exact ⟨hdec.typed, hdec.lower, hdec.precision, hdec.members⟩
  · exact fun c hc => ⟨hc.typed, hc.lower, hc.precision, hc.members⟩

/-! ### Indexes and comments -/

/-- The indexes and comments of a table as reading leaves them. -/
structure Annotated (d : Dialect) (t : Table) : Prop where
  dialect : t.dialect = d
  groups : ∀ names ∈ t.indexes, names ≠ []
  declared : ∀ names ∈ t.indexes, ∀ name ∈ names, Declared t.columns name
  unindexed : (rulesOf d).tableIndexes = false → t.indexes = []
  comments : ∀ e ∈ t.columnComments, ∃ c ∈ t.columns, c.name = e.1
  uncommented : (rulesOf d).commentStatements = false → t.columnComments = []

/-- What a list of definitions leaves, before names are resolved. -/
structure Collected (rules : Rules) (t : Table) : Prop where
  dialect : t.dialect = rules.dialect
  groups : ∀ names ∈ t.indexes, names ≠ []
  unindexed : rules.tableIndexes = false → t.indexes = []
  uncommented : t.columnComments = []

theorem Collected.add {t : Table} (h : Collected rules t) (tokens : List Token) :
    Collected rules (t.add (Definition.ofTokens rules source tokens)) := by
  rcases ofTokens_cases rules source tokens with ⟨text, us, he⟩ | ⟨_, _, _, _, he, -⟩ | ⟨_, he⟩
  · rw [he]
    rcases tableConstraint_cases rules text us with ⟨names, hne, hk | hk | ⟨hrules, hk⟩⟩ | ⟨_, hk⟩
    · rw [hk]
      exact ⟨h.dialect, h.groups, h.unindexed, h.uncommented⟩
    · rw [hk]
      exact ⟨h.dialect, h.groups, h.unindexed, h.uncommented⟩
    · rw [hk]
      refine ⟨h.dialect, fun names' hnames => ?_, fun hno => ?_, h.uncommented⟩
      · rcases List.mem_append.1 hnames with hnames | hnames
        · exact h.groups names' hnames
        · rw [List.mem_singleton.1 hnames]
          exact hne
      · simp [hrules] at hno
    · rw [hk]
      exact ⟨h.dialect, h.groups, h.unindexed, h.uncommented⟩
  · rw [he]
    exact ⟨h.dialect, h.groups, h.unindexed, h.uncommented⟩
  · rw [he]
    exact ⟨h.dialect, h.groups, h.unindexed, h.uncommented⟩

theorem collected_foldl {t : Table} (h : Collected rules t) (parts : List (List Token)) :
    Collected rules ((parts.map (Definition.ofTokens rules source)).foldl Table.add t) := by
  induction parts generalizing t with
  | nil => exact h
  | cons part parts ih => exact ih (h.add part)

theorem annotated_tableOf (d : Dialect) (source : List Char) (name : String) (body : List Token) :
    Annotated d (tableOf (rulesOf d) source name body) := by
  have hdialect : (rulesOf d).dialect = d := by cases d <;> rfl
  have hall : Collected (rulesOf d)
      (((splitDefinitions body).map (Definition.ofTokens (rulesOf d) source)).foldl Table.add
        { dialect := (rulesOf d).dialect, name }) :=
    collected_foldl ⟨rfl, by simp, by simp, rfl⟩ _
  generalize htable : ((splitDefinitions body).map _).foldl Table.add _ = t at hall
  have hresolved : Annotated d t.resolveNames := by
    refine ⟨hall.dialect.trans hdialect, ?_, ?_, ?_, ?_, fun _ => hall.uncommented⟩
    · intro names hnames
      obtain ⟨group, hgroup, rfl⟩ := List.mem_map.1 hnames
      simpa using hall.groups group hgroup
    · intro names hnames key hkey
      obtain ⟨group, -, rfl⟩ := List.mem_map.1 hnames
      obtain ⟨key', -, rfl⟩ := List.mem_map.1 hkey
      exact declared_declaredName _ _
    · intro hno
      simp [Table.resolveNames, hall.unindexed hno]
    · intro e he
      have : e ∈ t.columnComments := he
      simp [hall.uncommented] at this
  unfold tableOf
  dsimp only
  rw [htable]
  split
  · exact ⟨hresolved.1, hresolved.2, hresolved.3, hresolved.4, hresolved.5, hresolved.6⟩
  · exact hresolved

theorem mem_putSorted {key value : String} {entries : List (String × String)} {e : String × String}
    (h : e ∈ putSorted key value entries) : e.1 = key ∨ e ∈ entries := by
  induction entries with
  | nil =>
      obtain rfl := List.mem_singleton.1 h
      exact .inl rfl
  | cons entry entries ih =>
      obtain ⟨k, v⟩ := entry
      unfold putSorted at h
      split_ifs at h with hlt heq
      · rcases List.mem_cons.1 h with rfl | h
        · exact .inl rfl
        · exact .inr h
      · rcases List.mem_cons.1 h with rfl | h
        · exact .inl rfl
        · exact .inr (by simp [h])
      · rcases List.mem_cons.1 h with rfl | h
        · exact .inr (by simp)
        · rcases ih h with h | h
          · exact .inl h
          · exact .inr (by simp [h])

/-- A comment goes to a declared column. -/
theorem Annotated.applyTo {t : Table} (h : Annotated d t) (hrules : (rulesOf d).commentStatements)
    (comment : Comment) : Annotated d (comment.applyTo t) := by
  unfold Comment.applyTo
  split
  · exact ⟨h.1, h.2, h.3, h.4, h.5, h.6⟩
  · split
    · exact ⟨h.1, h.2, h.3, h.4, h.5, h.6⟩
    · rename_i c hfind
      have hmem := List.mem_of_find?_eq_some hfind
      refine ⟨h.1, h.2, h.3, h.4, fun e he => ?_, fun hno => by simp [hrules] at hno⟩
      dsimp only at he
      split at he
      · rcases mem_putSorted he with he | he
        · exact ⟨c, hmem, he.symm⟩
        · exact h.comments e he
      · exact h.comments e (List.mem_filter.1 he).1

theorem annotated_of_parseAll {script : String} {tables : List Table}
    (h : parseAll d script = .ok tables) : ∀ t ∈ tables, Annotated d t := by
  refine forall_of_parseAll h ?_ (fun hrules comment t ht => ht.applyTo hrules comment)
    fun t warnings ht => ⟨ht.1, ht.2, ht.3, ht.4, ht.5, ht.6⟩
  rintro tokens - t ⟨name, body, comment, -, -, rfl⟩
  have ht := annotated_tableOf d script.toList name body
  exact ⟨ht.1, ht.2, ht.3, ht.4, ht.5, ht.6⟩

/-! ### Descriptions -/

/-- A name of a key is that of a declared column, or it differs from all of them by more than the
case of ASCII letters. -/
def NamesColumnOrNone (columns : List Column) (name : String) : Prop :=
  (∃ c ∈ columns, c.name = name) ∨ ∀ c ∈ columns, sameWord c.name name = false

theorem Declared.namesColumnOrNone {columns : List Column} {name : String}
    (h : Declared columns name) : NamesColumnOrNone columns name := by
  unfold Declared Table.declaredName at h
  split at h
  · rename_i hany
    obtain ⟨c, hc, hname⟩ := List.any_eq_true.1 hany
    exact .inl ⟨c, hc, by simpa using hname⟩
  · split at h
    · rename_i c hfind
      exact .inl ⟨c, List.mem_of_find?_eq_some hfind, h⟩
    · rename_i hfind
      exact .inr fun c hc => by simpa using List.find?_eq_none.1 hfind c hc

/-- A description that keeps to the rules. -/
structure Describes (d : Dialect) (t : Table) : Prop where
  dialect : t.dialect = d
  named : t.name ≠ ""
  columnNamed : ∀ c ∈ t.columns, c.name ≠ ""
  columnTyped : ∀ c ∈ t.columns, TypedColumn c
  numbered : ∀ c ∈ t.columns, c.autoIncrement → c.notNull
  groups : ∀ names ∈ t.uniqueKeys ++ t.indexes, names ≠ []
  keys : ∀ name ∈ t.primaryKeys ++ t.uniqueKeys.flatten ++ t.indexes.flatten,
    NamesColumnOrNone t.columns name
  comments : ∀ e ∈ t.columnComments, ∃ c ∈ t.columns, c.name = e.1
  uncommented : d = .mysql → t.columnComments = []
  unindexed : d = .postgresql → t.indexes = []

/-- **Every table of a script** is described by the rules. -/
theorem describes_of_parseAll {script : String} {tables : List Table}
    (h : parseAll d script = .ok tables) : ∀ t ∈ tables, Describes d t := by
  intro t ht
  have hread := wellRead_of_parseAll h t ht
  have hnoted := annotated_of_parseAll h t ht
  refine ⟨hnoted.dialect, hread.named, fun c hc => (hread.columns c hc).named,
    fun c hc => typedColumn_of_parseAll h ht hc, fun c hc => (hread.columns c hc).required, ?_, ?_,
    hnoted.comments, ?_, ?_⟩
  · intro names hnames
    rcases List.mem_append.1 hnames with hnames | hnames
    · exact hread.groups names hnames
    · exact hnoted.groups names hnames
  · intro name hname
    simp only [List.mem_append, List.mem_flatten] at hname
    obtain (hname | ⟨names, hnames, hname⟩) | ⟨names, hnames, hname⟩ := hname
    · exact (hread.primary name hname).namesColumnOrNone
    · exact (hread.unique names hnames name hname).namesColumnOrNone
    · exact (hnoted.declared names hnames name hname).namesColumnOrNone
  · rintro rfl
    exact hnoted.uncommented rfl
  · rintro rfl
    exact hnoted.unindexed rfl

/-- A script whose keys stand before their columns and spell them otherwise. -/
def loginScript : String :=
  "CREATE TABLE logins (PRIMARY KEY (ID), KEY recent (Seen, place), id int AUTO_INCREMENT NULL, " ++
    "seen datetime(3) UNIQUE COMMENT 'last', state enum('in', 'out'))"

/-- The table of the script. -/
def logins : Table :=
  { dialect := .mysql
    name := "logins"
    columns :=
      [{ name := "id", rawType := "int", notNull := true, autoIncrement := true },
        { name := "seen", rawType := "datetime", length := some "3", comment := some "last" },
        { name := "state", rawType := "enum", members := ["in", "out"] }]
    primaryKeys := ["id"]
    uniqueKeys := [["seen"]]
    indexes := [["seen", "place"]] }

theorem describes_logins :
    ∃ tables, parseAll .mysql loginScript = .ok tables ∧ logins ∈ tables ∧
      ∀ t ∈ tables, Describes .mysql t := by
  have hread : parseAll .mysql loginScript = .ok [logins] := by decide +kernel
  exact ⟨[logins], hread, by simp, describes_of_parseAll hread⟩

end Schemata.Sql
