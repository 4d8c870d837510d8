import Schemata.Proofs.Ddl.Images

/-! # Types settle

A type of PostgreSQL that is converted to MySQL and back is converted to itself from then on
(`isSettled_typeImage`).  Types without parameters, and those whose parameters are fixed, are finitely
many; the others take their parameters over in each direction. -/

namespace Schemata.Ddl

open Schemata.Sql Schemata.SqlType Schemata.Text

variable {c : Column} {params : String}

/-! ### Types as columns -/

/-- What matters of a column for the type that it is given. -/
def typeOnly (c : Column) : Column :=
  { name := "", rawType := c.rawType, length := c.length, precision := c.precision
    autoIncrement := c.autoIncrement }

/-- The type that is read where a type is chosen. -/
def readChosen (d : Dialect) (t : ChosenType) : Column :=
  { (readType d t.text).column "" with autoIncrement := t.numbered }

theorem chosenType_typeOnly_mysql (c : Column) :
    Mysql.chosenType (typeOnly c) = Mysql.chosenType c := rfl

theorem chosenType_typeOnly_postgres (hunsigned : c.unsigned = false) (hmembers : c.members = []) :
    Postgres.chosenType (typeOnly c) = Postgres.chosenType c := by
  obtain ⟨name, raw, length, precision, unsigned, notNull, auto, default, comment, members⟩ := c
  subst hunsigned hmembers
  rfl

/-- Whether the values of a column are dates or times. -/
def isTemporal (c : Column) : Bool := (Family.ofColumn c).any Family.isTemporal

/-- Whether a type that was chosen in PostgreSQL is chosen again after it was converted to MySQL, and
holds dates or times there only if it may. -/
def comesBack (t : ChosenType) (temporal : Bool) : Bool :=
  let u := Mysql.chosenType (readChosen .postgresql t)
  let m := readChosen .mysql u
  Postgres.chosenType m = t && u.boolean = t.boolean && u.numbered = t.numbered &&
    (!isTemporal m || temporal)

/-- Whether a type of MySQL is the same after it was converted to PostgreSQL and back, as far as
PostgreSQL is concerned. -/
def isSettled (m : Column) : Bool := comesBack (Postgres.chosenType m) (isTemporal m)

/-- Only a column that is declared with a type of dates or times holds such. -/
theorem isTemporal_eq (h : c.unsigned = false) :
    isTemporal c = (Family.ofType c.rawType).any Family.isTemporal := by
  have tinyint : (Family.ofType "tinyint").any Family.isTemporal = false := by decide +kernel
  have bit : (Family.ofType "bit").any Family.isTemporal = false := by decide +kernel
  unfold isTemporal Family.ofColumn
  split
  · rename_i hbool
    simp only [Column.isTinyIntBool, Bool.and_eq_true, beq_iff_eq] at hbool
    rw [hbool.1, tinyint]
    rfl
  · split
    · rename_i hbit
      simp only [Bool.and_eq_true, beq_iff_eq] at hbit
      rw [hbit.1, bit]
      rfl
    · simp [h]

/-! ### Types without parameters of the column -/

/-- The types of MySQL that are written without the parameters of a column. -/
def fixedTypes : List String :=
  ["JSON", "SMALLINT", "INT", "BIGINT", "DECIMAL", "FLOAT", "DOUBLE", "DECIMAL(19,2)", "TINYINT(1)",
    "VARCHAR", "VARCHAR(255)", "CHAR", "LONGTEXT", "CHAR(36)", "VARCHAR(45)", "VARCHAR(17)",
    "VARCHAR(64)", "DATE", "TIME", "DATETIME", "TIMESTAMP", "LONGBLOB", "BIT"]

theorem isSettled_fixed : ∀ text ∈ fixedTypes, ∀ numbered : Bool,
    isSettled (readChosen .mysql { text, numbered }) := by
  -- one decision for each type, since one for all of them keeps every value that it meets on the way
  simp only [fixedTypes, List.forall_mem_cons]
  and_intros <;> decide +kernel

/-! ### Types with parameters -/

/-- The counterpart of a type that keeps its parameters: its name, and the type it is read as. -/
def kept? (d : Dialect) (raw : String) : Option (String × String) :=
  ((typesOf d).lookup raw).bind fun t =>
    if t.params == .drop || t.autoIncrement then none
    else (typeParts? d.other t.name).bind fun parts =>
      if parts == { raw := parts.raw } then some (t.name, parts.raw) else none

/-- Whether nothing but its counterpart matters for a type. -/
def isPlain (raw : String) : Bool :=
  dimensions raw = 0 && element raw = raw && !(["tinyint", "enum", "set"].contains raw)

/-- Whether a type of MySQL with parameters has the same counterpart in PostgreSQL after it was
converted there and back. -/
def keepsCounterpart (raw : String) : Bool :=
  (kept? .mysql raw).any fun (name, pgRaw) =>
    (kept? .postgresql pgRaw).any fun (_, raw') =>
      (kept? .mysql raw').any (·.1 = name) && isPlain raw && isPlain pgRaw && isPlain raw' &&
        (!(Family.ofType raw').any Family.isTemporal || (Family.ofType raw).any Family.isTemporal)

/-- A type that keeps its parameters is written with them. -/
theorem render_of_kept? {name raw : String} {d : Dialect}
    (h : kept? d (element c.rawType) = some (name, raw)) (hunsigned : c.unsigned = false)
    (hparams : c.typeParams = some params) :
    ∃ t, counterpart d c = some t ∧ t.render c = name ++ params ∧ t.autoIncrement = false ∧
      typeParts? d.other name = some { raw } := by
  unfold kept? at h
  obtain ⟨t, ht, hkept⟩ := Option.bind_eq_some_iff.1 h
  split at hkept
  · cases hkept
  · rename_i hrule
    obtain ⟨parts, hparts, hraw⟩ := Option.bind_eq_some_iff.1 hkept
    split at hraw
    · rename_i hplain
      simp only [Option.some.injEq, Prod.mk.injEq] at hraw
      obtain ⟨rfl, rfl⟩ := hraw
      simp only [Bool.or_eq_true, beq_iff_eq, not_or, Bool.not_eq_true] at hrule
      refine ⟨t, ?_, ?_, hrule.2, by rw [hparts, ← beq_iff_eq.1 hplain]⟩
      · cases d with
        | mysql => simpa [counterpart, hunsigned, typesOf] using ht
        | postgresql => exact ht
      · unfold Counterpart.render
        rw [hparams]
        cases hr : t.params with
        | drop => exact absurd hr hrule.1
        | keep => rfl
        | keepOr default => rfl
    · cases hraw

/-- **A type with parameters in MySQL** keeps them. -/
theorem Mysql.chosenType_kept {name raw : String}
    (h : kept? .postgresql (element c.rawType) = some (name, raw)) (hdim : dimensions c.rawType = 0)
    (hunsigned : c.unsigned = false) (hparams : c.typeParams = some params) (hc : DigitParams c)
    (hfilled : FilledParams c) (hplain : isPlain raw) :
    chosenType c = { text := name ++ params, numbered := c.autoIncrement } ∧
      typeParts? .mysql (name ++ params) =
        some { raw, length := c.length, precision := c.precision } := by
  obtain ⟨t, ht, hrender, hauto, hname⟩ := render_of_kept? h hunsigned hparams
  have hparts : typeParts? .mysql (name ++ params) = _ := typeParts?_params hname hc hfilled hparams
  have htruth : (name ++ params == "TINYINT(1)") = false := by
    rw [beq_eq_false_iff_ne]
    intro he
    have tinyint : typeParts? .mysql "TINYINT(1)" = some { raw := "tinyint", length := some "1" } := by
      decide +kernel
    rw [he, tinyint, Option.some.injEq, TypeParts.mk.injEq] at hparts
    simp [isPlain, ← hparts.1] at hplain
  refine ⟨?_, hparts⟩
  unfold chosenType
  rw [if_neg (by omega), ht]
  simp only [hrender, hauto, Bool.false_or, htruth]

/-- **A type with parameters in PostgreSQL** keeps them, unless it becomes a serial type. -/
theorem Postgres.chosenType_kept {name raw : String}
    (h : kept? .mysql (element c.rawType) = some (name, raw)) (hplain : isPlain c.rawType)
    (hunsigned : c.unsigned = false) (hparams : c.typeParams = some params) (hc : DigitParams c)
    (hfilled : FilledParams c) :
    chosenType c = (if c.autoIncrement then serialOf (name ++ params) else none).elim
        { text := name ++ params } (fun serial => { text := serial, numbered := true }) ∧
      typeParts? .postgresql (name ++ params) =
        some { raw, length := c.length, precision := c.precision } := by
  obtain ⟨t, ht, hrender, -, hname⟩ := render_of_kept? h hunsigned hparams
  have hparts : typeParts? .postgresql (name ++ params) = _ :=
    typeParts?_params hname hc hfilled hparams
  simp only [isPlain, Bool.and_eq_true, Bool.not_eq_true', List.contains_eq_mem, List.mem_cons,
    List.not_mem_nil, or_false, decide_eq_false_iff_not, not_or] at hplain
  obtain ⟨-, htinyint, henum, hset⟩ := hplain
  have hvalue : valueType c = name ++ params := by
    unfold valueType
    rw [if_neg (by simpa using henum), if_neg (by simpa using hset), ht]
    exact hrender
  have htruth : (name ++ params == "BOOLEAN") = false := by
    rw [beq_eq_false_iff_ne]
    intro he
    have boolean : typeParts? .postgresql "BOOLEAN" = some { raw := "boolean" } := by decide +kernel
    obtain ⟨-, hlength⟩ := toList_typeParams hparams
    rw [he, boolean, Option.some.injEq, TypeParts.mk.injEq] at hparts
    simp [← hparts.2.1] at hlength
  have hnot : c.isTinyIntBool = false := by
    simp [Column.isTinyIntBool, htinyint]
  refine ⟨?_, hparts⟩
  unfold chosenType
  rw [hnot, hvalue, htruth]
  cases c.autoIncrement with
  | false => rfl
  | true => cases serialOf (name ++ params) <;> rfl

theorem comesBack_serial : ∀ serial ∈ ["BIGSERIAL", "SMALLSERIAL", "SERIAL"], ∀ temporal : Bool,
    comesBack { text := serial, numbered := true } temporal := by
  decide +kernel

/-- A column of another type with the same parameters. -/
def retyped (c : Column) (raw : String) (numbered : Bool) : Column :=
  { name := "", rawType := raw, length := c.length, precision := c.precision
    autoIncrement := numbered }

theorem readChosen_retyped {d : Dialect} {text raw : String}
    (h : typeParts? d text = some { raw, length := c.length, precision := c.precision })
    (numbered boolean : Bool) :
    readChosen d { text, numbered, boolean } = retyped c raw numbered := by
  rw [readChosen, readType_eq h]
  rfl

/-- **A type with parameters settles** if it keeps its counterpart. -/
theorem isSettled_kept {raw : String} (h : keepsCounterpart raw) (hparams : c.typeParams = some params)
    (hc : DigitParams c) (hfilled : FilledParams c) (numbered : Bool) :
    isSettled (retyped c raw numbered) := by
  simp only [keepsCounterpart, Option.any_eq_true, Prod.exists, Bool.and_eq_true, decide_eq_true_eq]
    at h
  obtain ⟨_, pgRaw, h₁, mysqlName, raw', h₂, ⟨⟨⟨⟨name, _, h₃, rfl⟩, hraw⟩, hpgRaw⟩, hraw'⟩, htemporal⟩ := h
  have hself : ∀ {raw}, isPlain raw → element raw = raw ∧ dimensions raw = 0 := by
    intro raw hplain
    simp only [isPlain, Bool.and_eq_true, decide_eq_true_eq] at hplain
    exact ⟨hplain.1.2, hplain.1.1⟩
  have chosen : ∀ {raw pgRaw} (numbered : Bool), kept? .mysql raw = some (name, pgRaw) → isPlain raw →
      Postgres.chosenType (retyped c raw numbered) =
          (if numbered then Postgres.serialOf (name ++ params) else none).elim
            { text := name ++ params } (fun serial => { text := serial, numbered := true }) ∧
        typeParts? .postgresql (name ++ params) =
          some { raw := pgRaw, length := c.length, precision := c.precision } :=
    fun {raw _} numbered hkept hplain => Postgres.chosenType_kept (c := retyped c raw numbered)
      ((congrArg _ (hself hplain).1).trans hkept) hplain rfl hparams hc hfilled
  obtain ⟨hfirst, hparts⟩ := chosen numbered h₁ hraw
  unfold isSettled
  rw [hfirst]
  cases hs : if numbered then Postgres.serialOf (name ++ params) else none with
  | some serial =>
      have hserial : Postgres.serialOf (name ++ params) = some serial := by
        simp only [Option.ite_none_right_eq_some] at hs
        exact hs.2
      exact comesBack_serial serial (mem_of_serialOf hserial) _
  | none =>
      -- there and back the parameters stay, and the third type has the counterpart of the first
      obtain ⟨hthere, hback⟩ := Mysql.chosenType_kept (c := retyped c pgRaw false)
        ((congrArg _ (hself hpgRaw).1).trans h₂) (hself hpgRaw).2 rfl hparams hc hfilled hraw'
      obtain ⟨hagain, -⟩ := chosen false h₃ hraw'
      have hread : readChosen .postgresql { text := name ++ params } = retyped c pgRaw false :=
        readChosen_retyped hparts false false
      have hreadBack : readChosen .mysql { text := mysqlName ++ params } = retyped c raw' false :=
        readChosen_retyped hback false false
      unfold comesBack
      rw [Option.elim_none, hread, hthere]
      show (decide (Postgres.chosenType (readChosen .mysql { text := mysqlName ++ params }) = _) &&
        _ && _ && (!isTemporal (readChosen .mysql { text := mysqlName ++ params }) || _)) = true
      rw [hreadBack, hagain, isTemporal_eq rfl, isTemporal_eq rfl]
      simpa [retyped] using htemporal

/-! ### Types that come from PostgreSQL -/

/-- A text without the parameters of a column, if its rule has another for it. -/
theorem render_cases (t : Counterpart) (c : Column) :
    t.render c = t.render { name := "", rawType := "" } ∨
      t.params ≠ .drop ∧ ∃ params, c.typeParams = some params ∧ t.render c = t.name ++ params := by
  unfold Counterpart.render
  cases t.params with
  | drop => exact .inl rfl
  | keep =>
      cases c.typeParams with
      | none => exact .inl rfl
      | some params => exact .inr ⟨by simp, params, rfl, rfl⟩
  | keepOr default =>
      cases c.typeParams with
      | none => exact .inl rfl
      | some params => exact .inr ⟨by simp, params, rfl, rfl⟩

/-- **Types settle** once they were converted to MySQL. -/
theorem isSettled_chosenType (hknown : isKnown .postgresql c.rawType) (hc : DigitParams c)
    (hfilled : FilledParams c) : isSettled (readChosen .mysql (Mysql.chosenType c)) := by
  have table : ∀ e ∈ postgresTypes, e.2.render { name := "", rawType := "" } ∈ fixedTypes ∧
      (e.2.params ≠ .drop →
        (typeParts? .mysql e.2.name).any fun parts =>
          parts == { raw := parts.raw } && keepsCounterpart parts.raw) := by
    decide +kernel
  have fixed : ∀ {t : ChosenType}, t.text ∈ fixedTypes → isSettled (readChosen .mysql t) :=
    fun {t} ht => isSettled_fixed t.text ht t.numbered
  unfold Mysql.chosenType
  split
  · exact fixed (by decide)
  · obtain ⟨t, ht⟩ := Option.isSome_iff_exists.1 hknown
    have hcounter : counterpart .postgresql c = some t := ht
    have hmem : (element c.rawType, t) ∈ postgresTypes := mem_of_lookup ht
    obtain ⟨hplain, hkept⟩ := table (element c.rawType, t) hmem
    rw [hcounter]
    rcases render_cases t c with hrender | ⟨hrule, params, hparams, hrender⟩
    · exact fixed (by show t.render c ∈ _; rw [hrender]; exact hplain)
    · obtain ⟨parts, hparts, hraw⟩ := (Option.any_eq_true _ _).1 (hkept hrule)
      simp only [Bool.and_eq_true, beq_iff_eq] at hraw
      rw [hraw.1] at hparts
      have hread := typeParts?_params hparts hc hfilled hparams
      rw [← hrender] at hread
      show isSettled (readChosen .mysql { text := t.render c, numbered := _, boolean := _ })
      rw [readChosen_retyped hread]
      exact isSettled_kept hraw.2 hparams hc hfilled _

end Schemata.Ddl
