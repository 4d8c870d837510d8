import Schemata.Proofs.Ddl.Clauses
import Schemata.Proofs.Sql.Excerpts

/-! # Written values are read as they are written

A default that is one operand, after a sign perhaps, is cut out of the source with the text that it
is written with (`defaultAttribute_written`).  Such are the words that are values, literals, the
current time and date, and numbers of one token; their texts denote what they are written for
(`ofText_valueText`).  The defaults of a script are among them unless they are copied
(`isReadable_of_parseAll`). -/

namespace Schemata.Sql

open Schemata.Text

variable {rules : Rules} {source : List Char} {t : Token} {r ts rest : List Token}

/-- A default that ends with its operand is the text of its tokens. -/
theorem defaultAttribute_whole (rules : Rules) (source : List Char)
    (hsign : skipSign (ts ++ rest) = t :: r) (hnext : t.isKeyword "nextval" = false)
    (hoperand : skipOperand (t :: r) = rest) (hcast : ∀ u ∈ rest.head?, u.kind ≠ .doubleColon) :
    defaultAttribute rules source (ts ++ rest) = (.defaultTo (sourceText source ts), rest) := by
  have htake : (ts ++ rest).take ((ts ++ rest).length - rest.length) = ts := by
    rw [List.length_append, Nat.add_sub_cancel, List.take_left]
  unfold defaultAttribute
  rw [hsign]
  simp only [isNextValue, hnext, Bool.false_and, Bool.false_eq_true, if_false, hoperand,
    skipCasts_of_ne hcast, htake]

end Schemata.Sql

namespace Schemata.Ddl

open Schemata.Sql Schemata.Text

variable {d : Dialect} {source pre : List Char} {value ts rest : List Token}

/-! ### Operands -/

/-- The kinds of the tokens of a value that is one operand, after a sign perhaps. -/
inductive OperandKinds : List TokenKind → Prop
  | plain {ks : List TokenKind} (h : PlainValue ks) : OperandKinds ks
  | number {sign : List TokenKind} {k : TokenKind} (hsign : sign ∈ [[], [.symbol '+'], [.symbol '-']])
    (hk : isOperandKind k) : OperandKinds (sign ++ [k])

theorem OperandKinds.valueKinds {ks : List TokenKind} (h : OperandKinds ks) : ValueKinds ks := by
  cases h with
  | plain h => exact .plain h
  | number hsign hk => exact .number hsign hk (by simp)

/-- The value of a default is the text of its tokens. -/
theorem defaultAttribute_operand_kinds (rules : Rules) (source : List Char)
    (h : OperandKinds (value.map Token.kind)) (hrest : StartsClause d rest) :
    defaultAttribute rules source (value ++ rest) = (.defaultTo (sourceText source value), rest) := by
  have hcast : ∀ u ∈ rest.head?, u.kind ≠ .doubleColon := by
    intro u hu he
    obtain ⟨w, hw⟩ := kind_of_startsClause hrest u hu
    simp [hw] at he
  generalize hk : value.map Token.kind = ks at h
  cases h with
  | plain h =>
      subst hk
      obtain ⟨t, r, hsign, hnext, hoperand⟩ := operand_plain h hrest
      exact defaultAttribute_whole rules source hsign hnext hoperand hcast
  | @number sign k hsign hk' =>
      obtain ⟨t, numeral, hskip, hnext, hoperand, hnumeral⟩ := operand_number hsign hk' hk rest
      obtain rfl : numeral = [] := by simpa using hnumeral
      exact defaultAttribute_whole rules source hskip hnext hoperand hcast

/-! ### Texts -/

/-- A text that is read as a value with this text. -/
def WritesValue (d : Dialect) (text : String) : Prop :=
  ∃ ks, Fills d text.toList ks ∧ OperandKinds ks

/-- **A written value is read** with the text that it is written with. -/
theorem defaultAttribute_written {text : String} (h : WritesValue d text)
    (hts : Stands d source pre text.toList ts) (hrest : StartsClause d rest) :
    defaultAttribute (rulesOf d) source (ts ++ rest) = (.defaultTo text, rest) := by
  obtain ⟨ks, hfills, hkinds⟩ := h
  have hmap : ts.map Token.kind = ks := hts.kinds hfills.gives
  rw [defaultAttribute_operand_kinds _ _ (hmap ▸ hkinds) hrest, hts.sourceText_eq hfills,
    String.ofList_toList]

theorem WritesValue.gives {text : String} (h : WritesValue d text) :
    ∃ ks, Gives d text.toList ks ∧ ValueKinds ks := by
  obtain ⟨ks, hfills, hkinds⟩ := h
  exact ⟨ks, hfills.gives, hkinds.valueKinds⟩

theorem fills_word (w : String) (h : isBareWord w.toList) : Fills d w.toList [.word w] := by
  have := Fills.single (d := d) fun _ hr => lexes_word d h hr
  rwa [String.ofList_toList] at this

theorem writesValue_word {w : String} (h : w ∈ valueWords) : WritesValue d w := by
  have bare : ∀ w ∈ valueWords, isBareWord w.toList := by decide
  exact ⟨_, fills_word w (bare w h), .plain (.word h)⟩

theorem writesValue_literal (d : Dialect) (value : String) :
    WritesValue d ((spellingOf d).literal value) := by
  cases d with
  | mysql => exact ⟨_, .single fun _ hr => lexes_literalForMysql hr value, .plain (.literal value)⟩
  | postgresql =>
      exact ⟨_, .single fun _ hr => lexes_literalForPostgres hr value, .plain (.literal value)⟩

theorem writesValue_number (d : Dialect) {text : String} (h : isNumber text.toList)
    (hone : isOneToken text.toList) : WritesValue d text := by
  obtain ⟨sign, k, hfills, hsign, hk⟩ := fills_number d h hone
  exact ⟨_, hfills, .number hsign hk⟩

theorem writesValue_currentTimestamp (d : Dialect) {precision : Option String}
    (h : IsPrecision precision) : WritesValue d (currentTimestampText precision) := by
  cases precision with
  | none => exact writesValue_word (by decide)
  | some p =>
      obtain ⟨hne, hdigits⟩ := h p rfl
      obtain ⟨ks, hwhole, hks⟩ := wholeKinds?_digits d hdigits
      have hsep : '(' ∈ separators := by decide
      have hfills := (fills_word "CURRENT_TIMESTAMP" (by decide)).append
        (Fills.enclose (gives_of_wholeKinds? hwhole)) (separated_cons.2 hsep)
      rw [← toList_currentTimestampText] at hfills
      exact ⟨_, hfills, .plain (.call hks)⟩

theorem writesValue_currentDateGroup : WritesValue d "(CURRENT_DATE)" :=
  ⟨_, Fills.enclose (gives_word "CURRENT_DATE" (by decide)), .plain .group⟩

/-! ### Values and their texts -/

/-- The text of a value. -/
def valueText (d : Dialect) : DefaultValue → String
  | .null => "NULL"
  | .bool b => if b then "TRUE" else "FALSE"
  | .number text => text
  | .string value => (spellingOf d).literal value
  | .currentTimestamp precision => currentTimestampText precision
  | .currentDate => "CURRENT_DATE"
  | .function text => text
  | .expression text => text

/-- A value whose text is one operand that denotes it. -/
inductive IsReadable : DefaultValue → Prop
  | null : IsReadable .null
  | bool (b : Bool) : IsReadable (.bool b)
  | number {text : String} (h : isNumber text.toList) (hone : isOneToken text.toList) :
    IsReadable (.number text)
  | string (value : String) : IsReadable (.string value)
  | currentTimestamp {precision : Option String} (h : IsPrecision precision) :
    IsReadable (.currentTimestamp precision)
  | currentDate : IsReadable .currentDate
  | dateGroup : IsReadable (.expression "(CURRENT_DATE)")

theorem writesValue_valueText (d : Dialect) {value : DefaultValue} (h : IsReadable value) :
    WritesValue d (valueText d value) := by
  cases h with
  | null => exact writesValue_word (w := "NULL") (by decide)
  | bool b =>
      cases b with
      | false => exact writesValue_word (w := "FALSE") (by decide)
      | true => exact writesValue_word (w := "TRUE") (by decide)
  | number h hone => exact writesValue_number d h hone
  | string value => exact writesValue_literal d value
  | currentTimestamp h => exact writesValue_currentTimestamp d h
  | currentDate => exact writesValue_word (w := "CURRENT_DATE") (by decide)
  | dateGroup => exact writesValue_currentDateGroup

/-- **The text of a value denotes it.** -/
theorem ofText_valueText (d : Dialect) {value : DefaultValue} (h : IsReadable value) :
    DefaultValue.ofText d (valueText d value) = value := by
  cases h with
  | null => cases d <;> decide +kernel
  | bool b => cases d <;> cases b <;> decide +kernel
  | number h => exact ofText_of_isNumber d h
  | string value =>
      cases d with
      | mysql => exact ofText_literalForMysql value
      | postgresql => exact ofText_literalForPostgres value
  | currentTimestamp h => exact ofText_currentTimestampText d h
  | currentDate => cases d <;> decide +kernel
  | dateGroup => cases d <;> decide +kernel

/-! ### Defaults of scripts -/

/-- A number that is one token after its sign. -/
theorem isOneToken_of_tokenize {cs : List Char} {tokens : List Token} (h : isNumber cs)
    (ht : tokenize (rulesOf d) cs = .ok tokens) (hone : (skipSign tokens).length = 1) :
    isOneToken cs := by
  obtain ⟨⟨hall, hm⟩, sign, c, r, rfl, hsign, hc⟩ := numeral_of_isNumber h
  obtain ⟨signs, t, ts, p, rfl, hsigns, hkind, hts⟩ := tokensFrom_number_ok hsign hall hm ht
  have hoperand : isOperandKind t.kind := hkind ▸ isOperandKind_scanPlain r hc
  rw [skipSign_signs (map_symbol_of_sign hsign) hsigns (ne_sign_of_isOperandKind hoperand)] at hone
  obtain rfl : ts = [] := by simpa using hone
  -- what is left of the numeral would give a token
  have hlast : (scanPlain c r).rest = [] := by
    obtain ⟨hrest, hminus⟩ := numeral_rest (fun e he => hall e (List.mem_append_right _ he))
      (singleMinus_of_append hm)
    cases hr : (scanPlain c r).rest with
    | nil => rfl
    | cons e s =>
        rw [hr] at hrest hminus hts
        obtain ⟨_, _, _, hnil, -⟩ := tokensFrom_numeral_ok hrest hminus hts
        simp at hnil
  rw [isOneToken, afterSign_append hsign hc]
  simp [hlast]

/-- **A default that is a number** is one token after its sign. -/
theorem isOneToken_of_defaultAttribute {tokens : List Token} {text n : String}
    (hrun : IsRun d source tokens)
    (h : (defaultAttribute (rulesOf d) source tokens).1 = .defaultTo text)
    (hn : DefaultValue.ofText d text = .number n) : isOneToken n.toList := by
  obtain ⟨hnumber, htrim⟩ := number_of_ofText hn
  obtain ⟨ts, t, r, rfl, hsign, hne, rfl⟩ := exists_operand h
  obtain ⟨all, hall, hinfix⟩ := hrun
  have hfills := exists_fills hall ((List.prefix_append _ _).isInfix.trans hinfix) hne
  rw [hfills.trimmed_eq, String.ofList_toList] at htrim
  subst htrim
  -- what follows the operand starts with no token of the number
  obtain ⟨sign, k, ks, hwhole, hsign', hk, -⟩ := wholeKinds?_number d hnumber
  obtain ⟨tokens, htokens, hkinds⟩ := hfills.gives.tokenize
  obtain ⟨tokens', htokens', hkinds'⟩ := (gives_of_wholeKinds? hwhole).tokenize
  obtain rfl : tokens = tokens' := Except.ok.inj (htokens.symm.trans htokens')
  obtain ⟨u, numeral, hskip, -, hoperand, hrest⟩ :=
    operand_number hsign' hk (hkinds.symm.trans hkinds') (skipOperand (t :: r))
  rw [hsign] at hskip
  rw [← hskip] at hoperand
  obtain rfl : numeral = [] := List.append_left_eq_self.1 hoperand.symm
  obtain ⟨v, numeral', hskip', -, -, hrest'⟩ := operand_number hsign' hk hkinds' []
  rw [← hrest, List.map_nil, List.map_eq_nil_iff] at hrest'
  subst hrest'
  rw [List.append_nil] at hskip'
  exact isOneToken_of_tokenize hnumber htokens (by simp [hskip'])

/-- **A default of a script is readable** unless it is a call or an expression. -/
theorem isReadable_of_parseAll {script : String} {tables : List Table}
    (h : parseAll d script = .ok tables) {t : Table} (ht : t ∈ tables) {c : Column}
    (hc : c ∈ t.columns) {text : String} (htext : c.defaultValue = some text)
    (hfunction : ∀ f, DefaultValue.ofText d text ≠ .function f)
    (hexpression : ∀ e, DefaultValue.ofText d text ≠ .expression e) :
    IsReadable (DefaultValue.ofText d text) := by
  have hone : ∀ x, c.defaultValue = some x → ∀ n, DefaultValue.ofText d x = .number n →
      isOneToken n.toList := by
    refine forall_columns_of_parseAll (P := fun c => ∀ x, c.defaultValue = some x →
      ∀ n, DefaultValue.ofText d x = .number n → isOneToken n.toList) h ?_ ?_ (fun _ hc => hc) t ht c hc
    · intro ts _ name c rest hread x hx
      obtain ⟨-, _, _, _, _, -, -, rfl | ⟨params, -, rfl⟩⟩ := columnOfType?_cases hread
      · simp at hx
      · unfold withParameters at hx
        dsimp only at hx
        split at hx <;> simp at hx
    · intro t r hrun dec hdec x hx n hn
      cases hread : (readAttribute (rulesOf d) script.toList t r).1 with
      | defaultTo text =>
          rw [hread] at hx
          obtain rfl := Option.some.inj hx
          have hr : IsRun d script.toList r := hrun.mono (List.suffix_cons _ _).isInfix
          exact isOneToken_of_defaultAttribute hr (defaultAttribute_of_readAttribute hread) hn
      | nextValue =>
          rw [hread] at hx
          simp [Declaration.add] at hx
      | _ =>
          rw [hread] at hx
          exact hdec x hx n hn
  cases hv : DefaultValue.ofText d text with
  | null => exact .null
  | bool b => exact .bool b
  | number n => exact .number (isNumber_of_ofText hv) (hone text htext n hv)
  | string value => exact .string value
  | currentTimestamp precision => exact .currentTimestamp (isPrecision_of_ofText hv)
  | currentDate => exact .currentDate
  | function f => exact absurd hv (hfunction f)
  | expression e => exact absurd hv (hexpression e)

end Schemata.Ddl
