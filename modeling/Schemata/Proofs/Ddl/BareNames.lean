import Schemata.Proofs.Ddl.Definitions
import Schemata.Proofs.Sql.Bodies
import Schemata.Proofs.Sql.TypeNames

/-! # Names of columns without quotes

A name that is written for PostgreSQL, with or without quotes, and a type that PostgreSQL knows start
the declaration of a column of this name (`readsColumn_name`).  The exception is `like`, which needs no
quotes as a name but starts a constraint in the body of a table.  The name `exclude` is not one,
because no known type starts with the word `USING` (`not_using_of_isKnown`). -/

namespace Schemata.Ddl

open Schemata.Sql Schemata.SqlType Schemata.Text

variable {rules : Rules} {source rest : List Char} {t : Token} {r type attributes : List Token}

/-! ### Types that are known -/

/-- Any tokens can follow the word that a type starts with. -/
theorem exists_columnOfType? {w : String} (ht : t.kind = .word w) (hw : startsConstraint w = false)
    (rules : Rules) (source : List Char) (name : String) (r : List Token) :
    ∃ c rest, columnOfType? rules source name (t :: r) = some (c, rest) := by
  have hword : t.word? = some w := by simp [Token.word?, ht]
  rw [columnOfType?]
  simp only [hword, hw, Bool.false_eq_true, if_false]
  exact ⟨_, _, rfl⟩

/-- A type starts with a word, and its name with that word. -/
theorem columnOfType?_first {name : String} {ts : List Token} {c : Column}
    (h : columnOfType? rules source name ts = some (c, r)) :
    ∃ t us w words dimensions, ts = t :: us ∧ t.kind = .word w ∧ startsConstraint w = false ∧
      c.rawType = typeName (w :: words) dimensions := by
  unfold columnOfType? at h
  split at h
  · simp at h
  · rename_i t us
    split at h
    · simp at h
    · rename_i w hword
      have hkind : t.kind = .word w := by
        unfold Token.word? at hword
        split at hword <;> simp_all
      split at h
      · simp at h
      · rename_i hw
        dsimp only at h
        simp only [Option.some.injEq, Prod.mk.injEq] at h
        obtain ⟨rfl, -⟩ := h
        exact ⟨t, us, w, _, _, rfl, hkind, by simpa using hw, rfl⟩

/-- No known type starts with the word `USING`. -/
theorem not_using_of_isKnown {w : String} {words : List String} {dimensions : Nat}
    (h : isKnown .postgresql (typeName (w :: words) dimensions)) : sameWord w "using" = false := by
  have hsynonyms : ∀ e ∈ synonyms, ¬"using".toList <+: e.1.toList := by decide +kernel
  have htypes : ∀ key counter, (key, counter) ∈ postgresTypes → ¬"using".toList <+: key.toList := by
    have hall : ∀ e ∈ postgresTypes, ¬"using".toList <+: e.1.toList := by decide +kernel
    exact fun key counter hmem => hall (key, counter) hmem
  have hplain : ∀ c ∈ "using".toList, c ≠ '[' ∧ c ≠ ']' ∧ isBlank c = false := by decide
  rw [← Bool.not_eq_true]
  intro hsame
  have hlower : asciiLower w = "using" := beq_iff_eq.1 hsame
  have hblank : ∀ c ∈ w.toList, isBlank c = false := by
    intro c hc
    have hmem : c.toLower ∈ "using".toList := by
      rw [← hlower, asciiLower, String.toList_ofList]
      exact List.mem_map_of_mem hc
    rw [← Bool.not_eq_true]
    intro hb
    rw [toLower_of_isBlank hb] at hmem
    simp [(hplain c hmem).2.2] at hb
  have hne : w ≠ "" := by
    rintro rfl
    exact absurd hlower (by decide)
  obtain ⟨tail, htail⟩ : ∃ tail, " ".intercalate (w :: words) = w ++ tail := by
    cases words with
    | nil => exact ⟨"", by simp⟩
    | cons v words => exact ⟨" " ++ " ".intercalate (v :: words), by simp [String.append_assoc]⟩
  have hstart := isPrefix_canonical hne hblank (by rw [hlower]; exact hsynonyms) tail
  rw [hlower, ← htail] at hstart
  have helement : "using".toList <+: (element (typeName (w :: words) dimensions)).toList := by
    refine isPrefix_element hplain ?_
    rw [typeName, String.toList_append]
    exact hstart.trans (List.prefix_append _ _)
  obtain ⟨counter, hcounter⟩ := Option.isSome_iff_exists.1 h
  exact htypes _ counter (mem_of_lookup hcounter) helement

/-- A run of tokens that is read to its end as a type that PostgreSQL knows. -/
def IsKnownType (source : List Char) (ts : List Token) : Prop :=
  ∃ c, columnOfType? postgresRules source "" ts = some (c, []) ∧ isKnown .postgresql c.rawType

/-- The word that a known type starts with starts no constraint in place of a column. -/
theorem IsKnownType.startsType (h : IsKnownType source type) :
    ∃ u us w, type = u :: us ∧ u.kind = .word w ∧ startsType w := by
  obtain ⟨c, hread, hknown⟩ := h
  obtain ⟨u, us, w, words, dimensions, rfl, hu, hw, hraw⟩ := columnOfType?_first hread
  rw [hraw] at hknown
  exact ⟨u, us, w, rfl, hu, by simp [Ddl.startsType, hw, not_using_of_isKnown hknown]⟩

/-! ### Names -/

/-- Whether the tokens of a definition are taken for a constraint and not for a column. -/
def TakenForConstraint (ts : List Token) : Prop :=
  (afterWords ["constraint"] ts).isSome ∨ startsTableConstraint postgresRules ts

/-- How the definition of a column with the name `s` is read from its tokens. -/
structure ReadsColumn (source : List Char) (s : String) (ts : List Token) : Prop where
  /-- Only the name `like` is taken for the start of a constraint. -/
  constraint : TakenForConstraint ts ↔ s = "like"
  /-- Under any other name the definition adds a column of that name to every table. -/
  column : s ≠ "like" → ∃ c primary unique notices,
    Definition.ofTokens postgresRules source ts = .column c primary unique notices ∧ c.name = s ∧
      ∀ t : Table, (t.add (Definition.ofTokens postgresRules source ts)).columns = t.columns ++ [c]
  /-- A column named `like` is written without quotes, and passed over with its text. -/
  passedOver : s = "like" → nameForPostgres s = s ∧
    Definition.ofTokens postgresRules source ts = .skipped (.skipped .constraint (sourceText source ts))

/-- A column has the name that its declaration starts with. -/
theorem name_columnOf {rules : Rules} {source : List Char} {name : String} {ts rest : List Token}
    {c : Column} (h : columnOfType? rules source name ts = some (c, rest)) (l : List Attribute) :
    ∃ c' primary unique notices, columnOf rules (l.foldl Declaration.add { column := c }) =
      .column c' primary unique notices ∧ c'.name = name := by
  refine ⟨_, _, _, _, rfl, ?_⟩
  rw [settle_keeps (f := Column.name) fun _ => rfl, (foldl_add_column l { column := c }).1]
  exact (columnOfType?_some h).1

/-- The word `LIKE` starts a constraint, and no key or index. -/
theorem ofTokens_like (source : List Char) (ht : t.kind = .word "like") (r : List Token) :
    TakenForConstraint (t :: r) ∧ Definition.ofTokens postgresRules source (t :: r) =
      .skipped (.skipped .constraint (sourceText source (t :: r))) := by
  have hword : ∀ k, t.isKeyword k = ("like" == k) := by
    intro k
    have hlower : asciiLower "like" = "like" := by decide
    rw [isKeyword_eq, ht, TokenKind.keyword?, hlower]
    rfl
  have hstart : startsTableConstraint postgresRules (t :: r) = true := by
    simp [startsTableConstraint, Token.isOneOf, hword]
  refine ⟨.inr hstart, ?_⟩
  have hindex : startsIndex postgresRules (t :: r) = false := rfl
  have hnone : afterWords ["constraint"] (t :: r) = none ∧
      afterWords ["primary", "key"] (t :: r) = none ∧ afterWords ["unique"] (t :: r) = none :=
    ⟨afterWords_neg (hword _), afterWords_neg (hword _), afterWords_neg (hword _)⟩
  simp [Definition.ofTokens, tableConstraint, hnone, hstart, hindex]

/-- No other name is taken for the start of a constraint before a word that starts a type. -/
theorem not_takenForConstraint {s w : String} {u : Token} (hlike : s ≠ "like")
    (ht : t.kind = identKind .postgresql s) (hu : u.kind = .word w) (hw : startsType w) :
    ¬TakenForConstraint (t :: u :: r) := by
  rintro (hconstraint | hstart)
  · rw [afterWords_neg (isKeyword_name ht (.inl (by decide)))] at hconstraint
    simp at hconstraint
  · have hnot := startsTableConstraint_column (r := r) ht (.inr hlike) hu hw
    exact absurd hstart (Bool.eq_false_iff.1 hnot)

/-- The token of a name at the start of a definition. -/
theorem kind_of_name {s : String} {ts : List Token}
    (h : StandsSomewhere .postgresql source ((nameForPostgres s).toList ++ ' ' :: rest) (t :: ts)) :
    t.kind = identKind .postgresql s := by
  obtain ⟨pre, hstands⟩ := h
  obtain ⟨name, others, hsplit, hname, -⟩ := hstands.spaced (gives_name .postgresql s)
  obtain ⟨t', r, rfl, hkind, -⟩ := List.map_eq_cons_iff.1 (hname.kinds (gives_name .postgresql s))
  rw [(List.cons.inj hsplit).1]
  exact hkind

/-- **Names of columns are read back**, but for `like`: a text of a name as it is written for
PostgreSQL, a space, a type that PostgreSQL knows and anything after it. -/
theorem readsColumn_name {s : String} (hs : s ≠ "")
    (h : StandsSomewhere .postgresql source ((nameForPostgres s).toList ++ ' ' :: rest)
      (t :: (type ++ attributes)))
    (htype : IsKnownType source type) : ReadsColumn source s (t :: (type ++ attributes)) := by
  have ht := kind_of_name h
  obtain ⟨u, us, w, rfl, hu, hw⟩ := htype.startsType
  rw [List.cons_append]
  by_cases hlike : s = "like"
  · subst hlike
    obtain ⟨htaken, hread⟩ := ofTokens_like source (ht.trans (by decide)) (u :: (us ++ attributes))
    exact
      { constraint := iff_of_true htaken rfl
        column := fun hne => absurd rfl hne
        passedOver := fun _ => ⟨by decide, hread⟩ }
  · obtain ⟨c, r, hread⟩ := exists_columnOfType? hu (startsConstraint_of_startsType hw)
      postgresRules source s (us ++ attributes)
    obtain ⟨c', primary, unique, notices, hcolumn, hname⟩ :=
      name_columnOf hread (Sql.attributes postgresRules source r)
    have hdefinition : Definition.ofTokens postgresRules source (t :: u :: (us ++ attributes)) =
        .column c' primary unique notices :=
      (ofTokens_declaration hs (.inr hlike) ht hu hw hread).trans hcolumn
    exact
      { constraint := iff_of_false (not_takenForConstraint hlike ht hu hw) hlike
        column := fun _ => ⟨c', primary, unique, notices, hdefinition, hname, fun t => by
          rw [hdefinition]
          rfl⟩
        passedOver := fun he => absurd he hlike }

/-- The type and an attribute of a column. -/
def excludeTail : List Char := "character varying(10)[] NOT NULL".toList

/-- The definition of a column whose name can start a constraint. -/
def excludeDefinition : List Char := (nameForPostgres "exclude").toList ++ ' ' :: excludeTail

/-- The tokens of its type. -/
def excludeType : List Token :=
  [⟨.word "character", ⟨8, 17⟩⟩, ⟨.word "varying", ⟨18, 25⟩⟩, ⟨.lparen, ⟨25, 26⟩⟩,
    ⟨.number "10", ⟨26, 28⟩⟩, ⟨.rparen, ⟨28, 29⟩⟩, ⟨.lbracket, ⟨29, 30⟩⟩, ⟨.rbracket, ⟨30, 31⟩⟩]

theorem readsColumn_exclude :
    ReadsColumn excludeDefinition "exclude" (⟨.word "exclude", ⟨0, 7⟩⟩ ::
      (excludeType ++ [⟨.word "NOT", ⟨32, 35⟩⟩, ⟨.word "NULL", ⟨36, 40⟩⟩])) := by
  have htokens : tokenize (rulesOf .postgresql) excludeDefinition = .ok (⟨.word "exclude", ⟨0, 7⟩⟩ ::
      (excludeType ++ [⟨.word "NOT", ⟨32, 35⟩⟩, ⟨.word "NULL", ⟨36, 40⟩⟩])) := by decide +kernel
  have htype : IsKnownType excludeDefinition excludeType :=
    ⟨{ name := "", rawType := "varchar[]", length := some "10" }, by decide +kernel, by decide +kernel⟩
  exact readsColumn_name (by decide) ⟨[], .whole htokens⟩ htype

/-- A column named `like` is passed over as a constraint. -/
theorem like_passedOver :
    nameForPostgres "like" = "like" ∧
      (parseAll .postgresql "CREATE TABLE t (like integer)").map
          (·.map fun t => (t.columns, t.warnings)) =
        .ok [([], ["Skipped unsupported constraint definition: like integer",
          "Table 't' has no columns"])] := by
  decide +kernel

end Schemata.Ddl
