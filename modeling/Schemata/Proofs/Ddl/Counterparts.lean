import Schemata.Proofs.Ddl.TypeParts

/-! # The types of converted columns

The types that the conversions give to columns are written as words and numbers, and the dialect that
they are written for knows them and numbers those that are to be numbered (`mysql_givesType`,
`postgres_givesType`).  If no parameter is empty they are read with their parts
(`mysql_typeParts`, `postgres_typeParts`). -/

namespace Schemata.Ddl

open Schemata.Sql Schemata.SqlType Schemata.Text

variable {d : Dialect} {c : Column} {R : String → String → Prop}

/-! ### Counterparts -/

/-- A relation between texts and types that holds of the texts with parts, and of those that end with
the parameters of a column. -/
structure CoversTypes (d : Dialect) (c : Column) (R : String → String → Prop) : Prop where
  whole {text : String} {parts : TypeParts} (h : typeParts? d text = some parts) : R text parts.raw
  params {name raw params : String} (h : typeParts? d name = some { raw })
    (hparams : c.typeParams = some params) : R (name ++ params) raw

/-- Texts that give tokens of a type. -/
theorem coversTypes_givesType (hc : DigitParams c) : CoversTypes d c (GivesType d) where
  whole h := givesType_of_typeParts? h
  params h hparams := by
    obtain ⟨hsep, ks, hks, hshape⟩ := gives_typeParams (d := d) hc hparams
    exact givesType_params _ (notMem_of_typeParts? h).2 hks hsep hshape

/-- Texts that are read with their parts. -/
theorem coversTypes_typeParts (hc : DigitParams c) (hfilled : FilledParams c) :
    CoversTypes d c fun text raw => ∃ parts, typeParts? d text = some parts ∧ parts.raw = raw where
  whole h := ⟨_, h, rfl⟩
  params h hparams := ⟨_, typeParts?_params h hc hfilled hparams, rfl⟩

/-- Whether a counterpart is read as a type that satisfies `p`, whatever its parameters. -/
def readsType (d : Dialect) (p : String → Bool) (t : Counterpart) : Bool :=
  let takesParams := (typeParts? d t.name).any fun parts => parts == { raw := parts.raw } && p parts.raw
  match t.params with
  | .drop => (typeParts? d t.name).any (p ·.raw)
  | .keep => takesParams
  | .keepOr params => takesParams && (typeParts? d (t.name ++ "(" ++ params ++ ")")).any (p ·.raw)

theorem CoversTypes.of_any (h : CoversTypes d c R) {text : String} {p : String → Bool}
    (hp : (typeParts? d text).any (p ·.raw)) : ∃ raw, R text raw ∧ p raw := by
  obtain ⟨parts, hparts, hraw⟩ := (Option.any_eq_true _ _).1 hp
  exact ⟨parts.raw, h.whole hparts, hraw⟩

/-- A counterpart is read as a type. -/
theorem CoversTypes.render (h : CoversTypes d c R) {p : String → Bool} {t : Counterpart}
    (ht : readsType d p t) : ∃ raw, R (t.render c) raw ∧ p raw := by
  have kept : (typeParts? d t.name).any (fun parts => parts == { raw := parts.raw } && p parts.raw) →
      (∃ raw, R t.name raw ∧ p raw) ∧ ∀ {params}, c.typeParams = some params →
        ∃ raw, R (t.name ++ params) raw ∧ p raw := by
    intro hany
    obtain ⟨parts, hparts, hraw⟩ := (Option.any_eq_true _ _).1 hany
    simp only [Bool.and_eq_true, beq_iff_eq] at hraw
    refine ⟨⟨parts.raw, h.whole hparts, hraw.2⟩, fun hparams => ?_⟩
    rw [hraw.1] at hparts
    exact ⟨parts.raw, h.params hparts hparams, hraw.2⟩
  unfold readsType at ht
  unfold Counterpart.render
  cases hrule : t.params with
  | drop =>
      rw [hrule] at ht
      exact h.of_any ht
  | keep =>
      simp only [hrule] at ht
      cases hparams : c.typeParams with
      | none => exact (kept ht).1
      | some params => exact (kept ht).2 hparams
  | keepOr default =>
      simp only [hrule, Bool.and_eq_true] at ht
      cases hparams : c.typeParams with
      | none => exact h.of_any ht.2
      | some params => exact (kept ht.1).2 hparams

/-! ### Types in MySQL -/

/-- A known type of MySQL is no array. -/
theorem element_of_known {raw : String} (h : (mysqlTypes.lookup raw).isSome) : element raw = raw := by
  have table : ∀ e ∈ mysqlTypes, element e.1 = e.1 := by decide +kernel
  obtain ⟨u, hu⟩ := Option.isSome_iff_exists.1 h
  exact table (raw, u) (mem_of_lookup hu)

theorem isKnown_of_lookup {raw : String} (h : (mysqlTypes.lookup raw).isSome) :
    isKnown .mysql raw := by
  show (mysqlTypes.lookup (element raw)).isSome = true
  rw [element_of_known h]
  exact h

/-- A type that MySQL knows and does not number. -/
def isMysqlType (raw : String) : Bool :=
  (mysqlTypes.lookup raw).isSome && !mysqlRules.isNumbered raw

theorem CoversTypes.mysql (h : CoversTypes .mysql c R) (hknown : isKnown .postgresql c.rawType) :
    ∃ raw, R (Mysql.chosenType c).text raw ∧ isMysqlType raw := by
  have table : ∀ e ∈ postgresTypes, readsType .mysql isMysqlType e.2 := by decide +kernel
  have json : (typeParts? .mysql "JSON").any (isMysqlType ·.raw) := by decide +kernel
  unfold Mysql.chosenType
  split
  · exact h.of_any json
  · obtain ⟨t, ht⟩ := Option.isSome_iff_exists.1 hknown
    have hcounter : counterpart .postgresql c = some t := ht
    rw [hcounter]
    have hmem : (element c.rawType, t) ∈ postgresTypes := mem_of_lookup ht
    exact h.render (table (element c.rawType, t) hmem)

/-- **Types in MySQL** are written so that MySQL knows them. -/
theorem mysql_givesType {c : Column} (hknown : isKnown .postgresql c.rawType) (hc : DigitParams c) :
    ∃ raw, GivesType .mysql (Mysql.chosenType c).text raw ∧ isMysqlType raw :=
  (coversTypes_givesType hc).mysql hknown

/-- **Types in MySQL** are read with their parts. -/
theorem mysql_typeParts {c : Column} (hknown : isKnown .postgresql c.rawType) (hc : DigitParams c)
    (hfilled : FilledParams c) :
    ∃ parts, typeParts? .mysql (Mysql.chosenType c).text = some parts ∧ isMysqlType parts.raw := by
  obtain ⟨_, ⟨parts, hparts, rfl⟩, hraw⟩ := (coversTypes_typeParts hc hfilled).mysql hknown
  exact ⟨parts, hparts, hraw⟩

/-! ### Types in PostgreSQL -/

/-- A type that PostgreSQL knows and that it numbers if `numbered` says so. -/
def isPostgresType (numbered : Bool) (raw : String) : Bool :=
  isKnown .postgresql raw && postgresRules.isNumbered raw == numbered

/-- An enumeration is written as text of bounded length. -/
theorem typeParts?_varchar (n : Nat) :
    typeParts? .postgresql ("VARCHAR(" ++ toString n ++ ")") =
      some { raw := "varchar", length := some (toString n) } := by
  have hdigits : ∀ ch ∈ (toString n).toList, ch.isDigit := fun ch hch =>
    Nat.isDigit_of_mem_toDigits (b := 10) (n := n) (by simp) (by simp) (by simpa [Nat.repr] using hch)
  have hname : typeParts? .postgresql "VARCHAR" = some { raw := "varchar" } := by decide +kernel
  have := typeParts?_params hname (c := { name := "", rawType := "", length := some (toString n) })
    ⟨by simpa using hdigits, by simp⟩ ⟨by simp, by simp⟩ rfl
  have happ : "VARCHAR" ++ ("(" ++ toString n ++ ")") = "VARCHAR(" ++ toString n ++ ")" := by
    rw [← String.append_assoc, ← String.append_assoc]
    rfl
  rwa [happ] at this

theorem givesType_varchar (n : Nat) :
    ∃ raw, GivesType .postgresql ("VARCHAR(" ++ toString n ++ ")") raw ∧
      isPostgresType false raw :=
  ⟨"varchar", givesType_of_typeParts? (typeParts?_varchar n), by decide +kernel⟩

/-- The counterpart of a type of MySQL stands in the table under its name, or under that of the
unsigned type. -/
theorem lookup_of_counterpart {c : Column} {t : Counterpart} (h : counterpart .mysql c = some t) :
    mysqlTypes.lookup (element c.rawType) = some t ∨
      mysqlTypes.lookup (element c.rawType ++ " unsigned") = some t := by
  unfold counterpart at h
  dsimp only at h
  split at h
  · cases hu : mysqlTypes.lookup (element c.rawType ++ " unsigned") with
    | none =>
        rw [hu] at h
        exact .inl h
    | some u =>
        rw [hu] at h
        exact .inr h
  · exact .inl h

theorem counterpart_mem {c : Column} {t : Counterpart} (h : counterpart .mysql c = some t) :
    ∃ key, (key, t) ∈ mysqlTypes := by
  rcases lookup_of_counterpart h with h | h
  · exact ⟨_, mem_of_lookup h⟩
  · exact ⟨_, mem_of_lookup h⟩

/-- A known type of MySQL has a counterpart. -/
theorem exists_counterpart {c : Column} (h : isKnown .mysql c.rawType) :
    ∃ t, counterpart .mysql c = some t := by
  obtain ⟨t, ht⟩ : ∃ t, mysqlTypes.lookup (element c.rawType) = some t :=
    Option.isSome_iff_exists.1 h
  unfold counterpart
  dsimp only
  split
  · cases hu : mysqlTypes.lookup (element c.rawType ++ " unsigned") with
    | none => exact ⟨t, by simp [ht]⟩
    | some u => exact ⟨u, by simp⟩
  · exact ⟨t, ht⟩

/-- The serial types. -/
theorem mem_of_serialOf {type serial : String} (h : Postgres.serialOf type = some serial) :
    serial ∈ ["BIGSERIAL", "SMALLSERIAL", "SERIAL"] := by
  unfold Postgres.serialOf at h
  have table : ∀ e ∈ [("BIGINT", "BIGSERIAL"), ("NUMERIC(20)", "BIGSERIAL"),
      ("BIGSERIAL", "BIGSERIAL"), ("SMALLINT", "SMALLSERIAL"), ("INTEGER", "SERIAL")],
      e.2 ∈ ["BIGSERIAL", "SMALLSERIAL", "SERIAL"] := by
    decide
  exact table (type, serial) (mem_of_lookup h)

/-- The type of the values of a column, where PostgreSQL numbers it only if a serial type is written
for it. -/
theorem CoversTypes.valueType
    (hwhole : ∀ {text parts}, typeParts? .postgresql text = some parts → R text parts.raw)
    (h : c.rawType ≠ "enum" → c.rawType ≠ "set" → CoversTypes .postgresql c R)
    (hknown : isKnown .mysql c.rawType) :
    ∃ raw numbered, R (Postgres.valueType c) raw ∧ isPostgresType numbered raw ∧
      (numbered = true → (Postgres.serialOf (Postgres.valueType c)).isSome ∧
        ∃ t, counterpart .mysql c = some t ∧ t.autoIncrement = true) := by
  have table : ∀ e ∈ mysqlTypes, readsType .postgresql (isPostgresType e.2.autoIncrement) e.2 ∧
      (e.2.autoIncrement = true → e.2.params = .drop ∧ (Postgres.serialOf e.2.name).isSome) := by
    decide +kernel
  have text : typeParts? .postgresql "TEXT" = some { raw := "text" } := by decide +kernel
  unfold Postgres.valueType
  split
  · exact ⟨"varchar", false, hwhole (typeParts?_varchar _), by decide +kernel, by simp⟩
  · rename_i henum
    split
    · exact ⟨"text", false, hwhole text, by decide +kernel, by simp⟩
    · rename_i hset
      obtain ⟨t, ht⟩ := exists_counterpart hknown
      obtain ⟨key, hmem⟩ := counterpart_mem ht
      obtain ⟨hreads, hserial⟩ := table (key, t) hmem
      obtain ⟨raw, hraw, hp⟩ := (h (by simpa using henum) (by simpa using hset)).render hreads
      rw [ht]
      refine ⟨raw, t.autoIncrement, hraw, hp, fun hauto => ?_⟩
      obtain ⟨hdrop, hsome⟩ := hserial hauto
      refine ⟨?_, t, rfl, hauto⟩
      have hdrop' : t.params = .drop := hdrop
      have hrender : t.render c = t.name := by
        simp [Counterpart.render, hdrop']
      show (Postgres.serialOf (t.render c)).isSome
      rw [hrender]
      exact hsome

/-- A column whose type is numbered in PostgreSQL is numbered itself. -/
def AgreesOnNumbering (c : Column) : Prop :=
  ∀ t, counterpart .mysql c = some t → t.autoIncrement → c.autoIncrement

theorem CoversTypes.postgres
    (hwhole : ∀ {text parts}, typeParts? .postgresql text = some parts → R text parts.raw)
    (h : c.rawType ≠ "enum" → c.rawType ≠ "set" → CoversTypes .postgresql c R)
    (hknown : isKnown .mysql c.rawType) :
    ∃ raw numbered, R (Postgres.chosenType c).text raw ∧ isPostgresType numbered raw ∧
      (AgreesOnNumbering c → numbered = (Postgres.chosenType c).numbered) := by
  have boolean : typeParts? .postgresql "BOOLEAN" = some { raw := "boolean" } := by decide +kernel
  have serial : ∀ s ∈ ["BIGSERIAL", "SMALLSERIAL", "SERIAL"],
      (typeParts? .postgresql s).any (isPostgresType true ·.raw) := by
    decide +kernel
  obtain ⟨raw, numbered, hraw, hp, hnumbered⟩ := valueType hwhole h hknown
  unfold Postgres.chosenType
  split
  · exact ⟨"boolean", false, hwhole boolean, by decide +kernel, fun _ => rfl⟩
  · split
    · rename_i hnot
      refine ⟨raw, numbered, hraw, hp, fun hauto => ?_⟩
      cases numbered with
      | false => rfl
      | true =>
          obtain ⟨-, t, ht, hserial⟩ := hnumbered rfl
          simp [hauto t ht hserial] at hnot
    · cases hs : Postgres.serialOf (Postgres.valueType c) with
      | some s =>
          obtain ⟨parts, hparts, hp⟩ := (Option.any_eq_true _ _).1 (serial s (mem_of_serialOf hs))
          exact ⟨parts.raw, true, hwhole hparts, hp, fun _ => rfl⟩
      | none =>
          refine ⟨raw, numbered, hraw, hp, fun _ => ?_⟩
          cases numbered with
          | false => rfl
          | true =>
              have := (hnumbered rfl).1
              simp [hs] at this

/-- **Types in PostgreSQL** are written so that PostgreSQL knows them, and it numbers those that are
to be numbered. -/
theorem postgres_givesType {c : Column} (hknown : isKnown .mysql c.rawType)
    (hc : c.rawType ≠ "enum" → c.rawType ≠ "set" → DigitParams c) (hauto : AgreesOnNumbering c) :
    ∃ raw, GivesType .postgresql (Postgres.chosenType c).text raw ∧
      isPostgresType (Postgres.chosenType c).numbered raw := by
  obtain ⟨raw, numbered, hraw, hp, hnumbered⟩ := CoversTypes.postgres givesType_of_typeParts?
    (fun henum hset => coversTypes_givesType (hc henum hset)) hknown
  exact ⟨raw, hraw, hnumbered hauto ▸ hp⟩

/-- **Types in PostgreSQL** are read with their parts. -/
theorem postgres_typeParts {c : Column} (hknown : isKnown .mysql c.rawType) (hc : DigitParams c)
    (hfilled : FilledParams c) :
    ∃ parts numbered, typeParts? .postgresql (Postgres.chosenType c).text = some parts ∧
      isPostgresType numbered parts.raw ∧
      (AgreesOnNumbering c → numbered = (Postgres.chosenType c).numbered) := by
  have hcovers := coversTypes_typeParts (d := .postgresql) hc hfilled
  obtain ⟨_, numbered, ⟨parts, hparts, rfl⟩, hraw, hnumbered⟩ :=
    CoversTypes.postgres hcovers.whole (fun _ _ => hcovers) hknown
  exact ⟨parts, numbered, hparts, hraw, hnumbered⟩

end Schemata.Ddl
