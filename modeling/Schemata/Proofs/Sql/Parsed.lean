import Mathlib.Tactic.ByContra
import Mathlib.Tactic.SplitIfs
import Schemata.Proofs.Sql.Origins
import Schemata.Proofs.Sql.Quoting

/-! # Tables that are read

What holds of every table of a script (`wellRead_of_parseAll`): it has a name and so have its columns,
a column that the database numbers refuses nulls, and keys name the columns as they are declared. -/

namespace Schemata.Text

/-! ### Blanks at the end -/

theorem isBlank_toLower {c : Char} (h : isBlank c = false) : isBlank c.toLower = false := by
  cases hu : c.isUpper with
  | false => rwa [toLower_of_not_isUpper hu]
  | true =>
      obtain ⟨hlow, hhigh⟩ := isUpper_iff_toNat.1 hu
      simp only [isBlank, toNat_toLower hu, Bool.or_eq_false_iff, Bool.and_eq_false_iff,
        decide_eq_false_iff_not, beq_eq_false_iff_ne]
      omega

/-- The runs of characters between blanks are not empty and have no blanks. -/
theorem mem_blankSeparated {cs w : List Char} (h : w ∈ blankSeparated cs) :
    w ≠ [] ∧ ∀ c ∈ w, isBlank c = false := by
  fun_induction blankSeparated cs generalizing w with
  | case1 => simp at h
  | case2 => simp at h
  | case3 c hc =>
      obtain rfl := List.mem_singleton.1 h
      simpa using hc
  | case4 _ _ _ _ ih => exact ih h
  | case5 c d r hc _ ih =>
      rcases List.mem_cons.1 h with rfl | h
      · simpa using hc
      · exact ih h
  | case6 c d r hc hd hnil ih =>
      obtain rfl := List.mem_singleton.1 h
      simpa using hc
  | case7 c d r hc hd word rest hcons ih =>
      rcases List.mem_cons.1 h with rfl | h
      · obtain ⟨-, hword⟩ := ih (w := word) (by rw [hcons]; simp)
        refine ⟨by simp, ?_⟩
        intro e he
        rcases List.mem_cons.1 he with rfl | he
        · simpa using hc
        · exact hword e he
      · exact ih (by rw [hcons]; simp [h])

/-- A text that does not end with a blank. -/
def EndsTight (cs : List Char) : Prop := ∀ c ∈ cs.getLast?, isBlank c = false

theorem endsTight_intercalate {words : List (List Char)}
    (h : ∀ w ∈ words, w ≠ [] ∧ ∀ c ∈ w, isBlank c = false) : EndsTight ([' '].intercalate words) := by
  induction words with
  | nil => simp [EndsTight]
  | cons w words ih =>
      obtain ⟨hne, hw⟩ := h w (by simp)
      cases words with
      | nil =>
          rw [List.intercalate_singleton]
          exact fun c hc => hw c (List.mem_of_getLast? hc)
      | cons v words =>
          have hrest := ih fun w hw => h w (by simp [hw])
          have hne' : [' '].intercalate (v :: words) ≠ [] := by
            obtain ⟨hv, -⟩ := h v (by simp)
            cases words with
            | nil => simpa using hv
            | cons u us => simp [List.intercalate_cons_cons, hv]
          rw [List.intercalate_cons_cons]
          intro c hc
          rw [List.getLast?_append, List.getLast?_eq_some_getLast hne', Option.some_or] at hc
          exact hrest c (by rw [List.getLast?_eq_some_getLast hne']; exact hc)

end Schemata.Text

namespace Schemata.SqlType

open Schemata.Text

/-- A canonical name is the words of the name with one space between them, or a synonym of these. -/
theorem canonical_cases (name : String) :
    ∃ collapsed,
      collapsed = asciiLower (" ".intercalate ((blankSeparated name.toList).map String.ofList)) ∧
        ((∃ short, (collapsed, short) ∈ synonyms ∧ canonical name = short) ∨
          canonical name = collapsed) := by
  refine ⟨_, rfl, ?_⟩
  unfold canonical
  dsimp only
  generalize asciiLower (" ".intercalate ((blankSeparated name.toList).map String.ofList)) = collapsed
  cases hl : synonyms.lookup collapsed with
  | some short =>
      obtain ⟨l₁, l₂, he, -⟩ := List.lookup_eq_some_iff.1 hl
      exact .inl ⟨short, by rw [he]; simp, rfl⟩
  | none => exact .inr rfl

/-- A canonical name does not end with a blank. -/
theorem endsTight_canonical (name : String) : EndsTight (canonical name).toList := by
  have table : ∀ e ∈ synonyms, ∀ c ∈ e.2.toList.getLast?, isBlank c = false := by decide
  obtain ⟨collapsed, hcollapsed, ⟨short, hmem, hname⟩ | hname⟩ := canonical_cases name
  · rw [hname]
    exact table (collapsed, short) hmem
  · have htight : EndsTight ([' '].intercalate (blankSeparated name.toList)) :=
      endsTight_intercalate fun w hw => mem_blankSeparated hw
    rw [hname, hcollapsed, asciiLower, String.toList_ofList, toList_intercalate_ofList, EndsTight,
      List.getLast?_map]
    intro c hc
    obtain ⟨e, he, rfl⟩ := Option.map_eq_some_iff.1 hc
    exact isBlank_toLower (htight e he)

end Schemata.SqlType

namespace Schemata.Sql

open Schemata.Text

variable {rules : Rules}

/-! ### Columns -/

/-- A column as a declaration leaves it. -/
structure SettledColumn (rules : Rules) (c : Column) : Prop where
  named : c.name ≠ ""
  required : c.autoIncrement → c.notNull
  numbered : rules.isNumbered c.rawType → c.autoIncrement
  tight : EndsTight c.rawType.toList

/-- Marks of array dimensions do not end with a blank. -/
theorem endsTight_dimensions (base : String) (n : Nat) (h : EndsTight base.toList) :
    EndsTight (base ++ String.join (List.replicate n "[]")).toList := by
  have hjoin : (String.join (List.replicate n "[]")).toList = (List.replicate n ['[', ']']).flatten := by
    rw [String.toList_join, List.flatMap_def, List.map_replicate]
    rfl
  rw [String.toList_append, hjoin]
  cases n with
  | zero => simpa using h
  | succ n =>
      rw [List.replicate_succ', List.flatten_append, ← List.append_assoc]
      simp [EndsTight, isBlank]

/-- A type is read for a column of the given name that nothing else is said about. -/
theorem columnOfType?_some {source : List Char} {name : String} {tokens rest : List Token}
    {c : Column} (h : columnOfType? rules source name tokens = some (c, rest)) :
    c.name = name ∧ c.autoIncrement = false ∧ EndsTight c.rawType.toList := by
  have hparams : ∀ params raw, (withParameters source params { name, rawType := raw }).name = name ∧
      (withParameters source params { name, rawType := raw }).autoIncrement = false := by
    intro params raw
    unfold withParameters
    dsimp only
    split <;> exact ⟨rfl, rfl⟩
  unfold columnOfType? at h
  split at h
  · simp at h
  · split at h
    · simp at h
    · rename_i first _
      split at h
      · simp at h
      · dsimp only at h
        generalize hbase : SqlType.canonical _ = base at h
        generalize hdims : (arrayMarks _).1 = n at h
        have htight : EndsTight (base ++ String.join (List.replicate n "[]")).toList :=
          endsTight_dimensions base n (hbase ▸ SqlType.endsTight_canonical _)
        simp only [Option.some.injEq, Prod.mk.injEq] at h
        obtain ⟨rfl, -⟩ := h
        dsimp only
        split
        · exact ⟨(hparams _ _).1, (hparams _ _).2, htight⟩
        · exact ⟨rfl, rfl, htight⟩

/-- No attribute changes the name or the type of a column. -/
theorem foldl_add_column (attributes : List Attribute) (d : Declaration) :
    (attributes.foldl Declaration.add d).column.name = d.column.name ∧
      (attributes.foldl Declaration.add d).column.rawType = d.column.rawType := by
  induction attributes generalizing d with
  | nil => exact ⟨rfl, rfl⟩
  | cons a attributes ih =>
      obtain ⟨hname, hraw⟩ := ih (d.add a)
      have hadd : (d.add a).column.name = d.column.name ∧
          (d.add a).column.rawType = d.column.rawType := by
        cases a <;> exact ⟨rfl, rfl⟩
      exact ⟨hname.trans hadd.1, hraw.trans hadd.2⟩

/-- What a definition declares is well formed. -/
def Definition.WellFormed (rules : Rules) : Definition → Prop
  | .column c _ _ _ => SettledColumn rules c
  | .unique names => names ≠ []
  | _ => True

theorem settledColumn_settle {c : Column} (hname : c.name ≠ "")
    (htight : EndsTight c.rawType.toList) : SettledColumn rules (Declaration.settle rules c) := by
  unfold Declaration.settle
  split
  · exact ⟨hname, fun _ => rfl, fun _ => rfl, htight⟩
  · rename_i h
    simp only [Bool.or_eq_true, not_or] at h
    exact ⟨hname, fun ha => absurd ha h.1, fun hn => absurd hn h.2, htight⟩

theorem wellFormed_columnDefinition? {source : List Char} {tokens : List Token} {d : Definition}
    (h : columnDefinition? rules source tokens = some d) : d.WellFormed rules := by
  obtain ⟨tail, typed, c, _, _, _, ⟨⟨first, r, name, rfl, -, hne, htype⟩, rfl⟩, rfl⟩ :=
    declares_of_columnDefinition? h
  obtain ⟨hname, -, htight⟩ := columnOfType?_some htype
  obtain ⟨hname', hraw'⟩ := foldl_add_column (attributes rules source tail) { column := typed }
  refine settledColumn_settle ?_ ?_
  · rw [hname', hname]
    exact hne
  · rw [hraw']
    exact htight

theorem wellFormed_ofTokens (source : List Char) (tokens : List Token) :
    (Definition.ofTokens rules source tokens).WellFormed rules := by
  rcases ofTokens_cases rules source tokens with ⟨text, us, he⟩ | ⟨_, _, _, _, he, hd⟩ | ⟨_, he⟩
  · rw [he]
    rcases tableConstraint_cases rules text us with ⟨names, hne, h | h | ⟨-, h⟩⟩ | ⟨_, h⟩
    · rw [h]
      trivial
    · rw [h]
      exact hne
    · rw [h]
      trivial
    · rw [h]
      trivial
  · rw [he]
    exact wellFormed_columnDefinition? hd
  · rw [he]
    trivial

/-! ### Keys -/

/-- A name that is already in the spelling of its column. -/
def Declared (columns : List Column) (name : String) : Prop :=
  Table.declaredName columns name = name

/-- The spelling of a column is that of its declaration. -/
theorem declared_declaredName (columns : List Column) (name : String) :
    Declared columns (Table.declaredName columns name) := by
  unfold Declared
  by_cases hany : columns.any (·.name == name)
  · have hname : Table.declaredName columns name = name := by
      rw [Table.declaredName, if_pos hany]
    rw [hname, hname]
  · cases hfind : columns.find? (fun c => sameWord c.name name) with
    | none =>
        have : Table.declaredName columns name = name := by
          rw [Table.declaredName, if_neg hany, hfind]
        rw [this, this]
    | some c =>
        have hname : Table.declaredName columns name = c.name := by
          rw [Table.declaredName, if_neg hany, hfind]
        have hmem : columns.any (·.name == c.name) := by
          rw [List.any_eq_true]
          exact ⟨c, List.mem_of_find?_eq_some hfind, by simp⟩
        rw [hname, Table.declaredName, if_pos hmem]

/-! ### Tables -/

/-- A table as reading leaves it. -/
structure WellRead (rules : Rules) (t : Table) : Prop where
  named : t.name ≠ ""
  columns : ∀ c ∈ t.columns, SettledColumn rules c
  groups : ∀ names ∈ t.uniqueKeys, names ≠ []
  primary : ∀ name ∈ t.primaryKeys, Declared t.columns name
  unique : ∀ names ∈ t.uniqueKeys, ∀ name ∈ names, Declared t.columns name

/-- What a list of definitions leaves, before names are resolved. -/
structure Building (rules : Rules) (name : String) (t : Table) : Prop where
  name : t.name = name
  columns : ∀ c ∈ t.columns, SettledColumn rules c
  groups : ∀ names ∈ t.uniqueKeys, names ≠ []

theorem Building.add {name : String} {t : Table} {d : Definition} (h : Building rules name t)
    (hd : d.WellFormed rules) : Building rules name (t.add d) := by
  cases d with
  | column c primary unique notices =>
      refine ⟨h.name, ?_, ?_⟩
      · intro c' hc'
        rcases List.mem_append.1 hc' with hc' | hc'
        · exact h.columns c' hc'
        · obtain rfl := List.mem_singleton.1 hc'
          exact hd
      · intro names hnames
        simp only [Table.add] at hnames
        split at hnames
        · rcases List.mem_append.1 hnames with hnames | hnames
          · exact h.groups names hnames
          · obtain rfl := List.mem_singleton.1 hnames
            simp
        · exact h.groups names hnames
  | unique names =>
      refine ⟨h.name, h.columns, ?_⟩
      intro names' hnames
      rcases List.mem_append.1 hnames with hnames | hnames
      · exact h.groups names' hnames
      · obtain rfl := List.mem_singleton.1 hnames
        exact hd
  | primaryKey _ => exact ⟨h.name, h.columns, h.groups⟩
  | index _ => exact ⟨h.name, h.columns, h.groups⟩
  | skipped _ => exact ⟨h.name, h.columns, h.groups⟩

theorem Building.foldl {name : String} {definitions : List Definition} {t : Table}
    (h : Building rules name t) (hd : ∀ d ∈ definitions, d.WellFormed rules) :
    Building rules name (definitions.foldl Table.add t) := by
  induction definitions generalizing t with
  | nil => exact h
  | cons d definitions ih =>
      exact ih (h.add (hd d (by simp))) fun d hd' => hd d (by simp [hd'])

/-- Resolving names leaves a table with declared names. -/
theorem Building.resolveNames {name : String} {t : Table} (h : Building rules name t)
    (hname : name ≠ "") : WellRead rules t.resolveNames := by
  refine ⟨by rw [← h.name] at hname; exact hname, h.columns, ?_, ?_, ?_⟩
  · intro names hnames
    obtain ⟨group, hgroup, rfl⟩ := List.mem_map.1 hnames
    simpa using h.groups group hgroup
  · intro key hkey
    obtain ⟨key', -, rfl⟩ := List.mem_map.1 hkey
    exact declared_declaredName _ _
  · intro names hnames key hkey
    obtain ⟨group, -, rfl⟩ := List.mem_map.1 hnames
    obtain ⟨key', -, rfl⟩ := List.mem_map.1 hkey
    exact declared_declaredName _ _

/-- Only the name, the columns and the keys of a table matter. -/
theorem WellRead.of_eq {t t' : Table} (h : WellRead rules t) (hname : t'.name = t.name)
    (hcolumns : t'.columns = t.columns) (hprimary : t'.primaryKeys = t.primaryKeys)
    (hunique : t'.uniqueKeys = t.uniqueKeys) : WellRead rules t' := by
  refine ⟨hname ▸ h.named, hcolumns ▸ h.columns, hunique ▸ h.groups, ?_, ?_⟩
  · rw [hcolumns, hprimary]
    exact h.primary
  · rw [hcolumns, hunique]
    exact h.unique

theorem wellRead_tableOf {source : List Char} {name : String} (hname : name ≠ "")
    (body : List Token) : WellRead rules (tableOf rules source name body) := by
  have hbuilding : Building rules name
      (((splitDefinitions body).map (Definition.ofTokens rules source)).foldl Table.add
        { dialect := rules.dialect, name }) := by
    refine Building.foldl ⟨rfl, by simp, by simp⟩ ?_
    intro d hd
    obtain ⟨tokens, -, rfl⟩ := List.mem_map.1 hd
    exact wellFormed_ofTokens source tokens
  have := hbuilding.resolveNames hname
  unfold tableOf
  dsimp only
  split
  · exact this.of_eq rfl rfl rfl rfl
  · exact this

/-- A comment changes neither the name nor the columns nor the keys of a table. -/
theorem WellRead.applyTo {t : Table} (h : WellRead rules t) (comment : Comment) :
    WellRead rules (comment.applyTo t) := by
  unfold Comment.applyTo
  split
  · exact h.of_eq rfl rfl rfl rfl
  · split
    · exact h.of_eq rfl rfl rfl rfl
    · exact h.of_eq rfl rfl rfl rfl

/-- **Every table of a script** is well read. -/
theorem wellRead_of_parseAll {d : Dialect} {script : String} {tables : List Table}
    (h : parseAll d script = .ok tables) : ∀ t ∈ tables, WellRead (rulesOf d) t := by
  refine forall_of_parseAll h ?_ (fun _ comment t ht => ht.applyTo comment)
    fun t warnings ht => ht.of_eq rfl rfl rfl rfl
  rintro tokens - t ⟨name, body, comment, hname, -, rfl⟩
  exact (wellRead_tableOf hname body).of_eq rfl rfl rfl rfl

end Schemata.Sql
