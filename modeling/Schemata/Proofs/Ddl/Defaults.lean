import Schemata.Proofs.Ddl.Tokens
import Schemata.Proofs.Sql.Values

/-! # The tokens of default values

Apart from expressions and calls of functions, which are copied, a default is written in one of a few
shapes (`ValueKinds`), whatever its value (`mysql_gives_default`, `postgres_gives_default`). -/

namespace Schemata.Ddl

open Schemata.Sql Schemata.Text

variable {d : Dialect}

/-! ### Shapes -/

/-- The words that are values. -/
def valueWords : List String := ["NULL", "TRUE", "FALSE", "CURRENT_TIMESTAMP", "CURRENT_DATE"]

/-- The kinds of the tokens of a value that is no number: a literal, a word, the current time, or the
current date in parentheses. -/
inductive PlainValue : List TokenKind → Prop
  | literal (value : String) : PlainValue [.stringLit value]
  | word {w : String} (h : w ∈ valueWords) : PlainValue [.word w]
  | call {ks : List TokenKind} (h : ∀ k ∈ ks, isNumeralKind k) :
    PlainValue (.word "CURRENT_TIMESTAMP" :: .lparen :: (ks ++ [.rparen]))
  | group : PlainValue [.lparen, .word "CURRENT_DATE", .rparen]

/-- The kinds of the tokens of a default that is neither an expression nor a call of any
function. -/
inductive ValueKinds : List TokenKind → Prop
  | plain {ks : List TokenKind} (h : PlainValue ks) : ValueKinds ks
  | number {sign : List TokenKind} {k : TokenKind} {ks : List TokenKind}
    (hsign : sign ∈ [[], [.symbol '+'], [.symbol '-']]) (hk : isOperandKind k)
    (hks : ∀ j ∈ ks, isNumeralKind j) : ValueKinds (sign ++ k :: ks)

theorem isPlain_of_isNumeralKind {k : TokenKind} (h : isNumeralKind k) :
    isPlain k ∧ k ≠ .semicolon := by
  cases k <;> simp_all [isNumeralKind, isPlain]

theorem part_of_isNumeralKind {ks : List TokenKind} (h : ∀ k ∈ ks, isNumeralKind k) : IsPart ks := by
  induction ks with
  | nil => exact part_nil
  | cons k ks ih =>
      exact (ih fun j hj => h j (by simp [hj])).cons (isPlain_of_isNumeralKind (h k (by simp))).1

theorem semicolon_notMem_of_isNumeralKind {ks : List TokenKind} (h : ∀ k ∈ ks, isNumeralKind k) :
    .semicolon ∉ ks :=
  fun hmem => (isPlain_of_isNumeralKind (h _ hmem)).2 rfl

theorem PlainValue.part {ks : List TokenKind} (h : PlainValue ks) : IsPart ks ∧ .semicolon ∉ ks := by
  cases h with
  | literal value => exact ⟨part_nil.cons rfl, by simp⟩
  | word h => exact ⟨part_nil.cons rfl, by simp⟩
  | call h =>
      refine ⟨((part_of_isNumeralKind h).balanced.group).cons rfl, ?_⟩
      simp [semicolon_notMem_of_isNumeralKind h]
  | group => exact ⟨rfl, by simp⟩

/-- A default stands in one definition. -/
theorem ValueKinds.part {ks : List TokenKind} (h : ValueKinds ks) :
    IsPart ks ∧ .semicolon ∉ ks := by
  cases h with
  | plain h => exact h.part
  | @number sign k ks hsign hk hks =>
      have hplain : isPlain k ∧ k ≠ .semicolon := by
        cases k <;> simp_all [isOperandKind, isPlain]
      have hrest := (part_of_isNumeralKind hks).cons hplain.1
      have hsemicolon := semicolon_notMem_of_isNumeralKind hks
      simp only [List.mem_cons, List.not_mem_nil, or_false] at hsign
      rcases hsign with rfl | rfl | rfl
      · exact ⟨hrest, by simp [hsemicolon, hplain.2.symm]⟩
      · exact ⟨hrest.cons rfl, by simp [hsemicolon, hplain.2.symm]⟩
      · exact ⟨hrest.cons rfl, by simp [hsemicolon, hplain.2.symm]⟩

/-! ### Texts of the shapes -/

theorem gives_number {text : String} (h : isNumber text.toList) :
    ∃ ks, Gives d text.toList ks ∧ ValueKinds ks := by
  obtain ⟨sign, k, ks, hwhole, hsign, hk, hks⟩ := wholeKinds?_number d h
  exact ⟨_, gives_of_wholeKinds? hwhole, .number hsign hk hks⟩

theorem gives_valueWord {w : String} (h : w ∈ valueWords) :
    ∃ ks, Gives d w.toList ks ∧ ValueKinds ks := by
  have bare : ∀ w ∈ valueWords, isBareWord w.toList := by decide
  exact ⟨_, gives_word w (bare w h), .plain (.word h)⟩

theorem gives_literalValue (value : String) :
    ∃ ks, Gives d ((spellingOf d).literal value).toList ks ∧ ValueKinds ks :=
  ⟨_, gives_literal d value, .plain (.literal value)⟩

theorem gives_currentTimestamp {precision : Option String} (h : IsPrecision precision) :
    ∃ ks, Gives d (currentTimestampText precision).toList ks ∧ ValueKinds ks := by
  cases precision with
  | none => exact gives_valueWord (by decide)
  | some p =>
      obtain ⟨ks, hwhole, hks⟩ := wholeKinds?_digits d (h p rfl).2
      have hend : Gives d [')'] [.rparen] := Gives.nil.punct rfl
      have hgroup := ((gives_of_wholeKinds? hwhole).append hend (by decide)).punct (c := '(') rfl
      have hsep : '(' ∈ separators := by decide
      have := (gives_word "CURRENT_TIMESTAMP" (by decide)).append hgroup (separated_cons.2 hsep)
      rw [toList_currentTimestampText]
      exact ⟨_, this, .plain (.call hks)⟩

theorem gives_currentDateGroup : ∃ ks, Gives d "(CURRENT_DATE)".toList ks ∧ ValueKinds ks := by
  have hend : Gives d [')'] [.rparen] := Gives.nil.punct rfl
  have := ((gives_word "CURRENT_DATE" (by decide)).append hend (by decide)).punct (c := '(') rfl
  exact ⟨_, by simpa using this, .plain .group⟩

/-! ### Defaults of both dialects -/

/-- A default in MySQL is that of a column that is not numbered. -/
theorem mysql_default?_ok {c : Column} {t : ChosenType} {result : String}
    (h : Mysql.default? c t = some (.ok result)) :
    t.numbered = false ∧ ∃ text, c.defaultValue = some text ∧
      Mysql.defaultText c t (.ofText .postgresql text) = .ok result := by
  unfold Mysql.default? at h
  split at h
  · simp at h
  · rename_i hnumbered
    exact ⟨Bool.eq_false_iff.2 hnumbered, Option.map_eq_some_iff.1 h⟩

/-- A default in PostgreSQL is that of a column that is not numbered. -/
theorem postgres_default?_ok {c : Column} {t : ChosenType} {result : String}
    (h : Postgres.default? c t = some (.ok result)) :
    t.numbered = false ∧ ∃ text, c.defaultValue = some text ∧
      Postgres.defaultText c t (.ofText .mysql text) = .ok result := by
  unfold Postgres.default? at h
  split at h
  · simp at h
  · rename_i hnumbered
    exact ⟨Bool.eq_false_iff.2 hnumbered, Option.map_eq_some_iff.1 h⟩

/-- **Defaults in MySQL** are written in the shapes of values. -/
theorem mysql_gives_default {c : Column} {t : ChosenType} {text result : String}
    (hexpr : ∀ e, DefaultValue.ofText .postgresql text ≠ .expression e)
    (h : Mysql.defaultText c t (.ofText .postgresql text) = .ok result) :
    ∃ ks, Gives .mysql result.toList ks ∧ ValueKinds ks := by
  have hbit : ∀ b, ∃ ks, Gives .mysql (Mysql.bit b).toList ks ∧ ValueKinds ks := by
    intro b
    apply gives_number
    cases b <;> decide
  generalize hv : DefaultValue.ofText .postgresql text = value at h hexpr
  unfold Mysql.defaultText at h
  split at h
  · obtain rfl := Except.ok.inj h
    exact hbit _
  · cases value with
    | null =>
        obtain rfl := Except.ok.inj h
        exact gives_valueWord (by decide)
    | bool b =>
        obtain rfl := Except.ok.inj h
        exact hbit b
    | number n =>
        obtain rfl := Except.ok.inj h
        exact gives_number (isNumber_of_ofText hv)
    | string s =>
        obtain rfl := Except.ok.inj h
        exact gives_literalValue (d := .mysql) s
    | currentTimestamp p =>
        obtain rfl := Except.ok.inj h
        exact gives_currentTimestamp (isPrecision_of_ofText hv)
    | currentDate =>
        obtain rfl := Except.ok.inj h
        split
        · exact gives_currentDateGroup
        · exact gives_valueWord (by decide)
    | function f => simp at h
    | expression e => exact absurd rfl (hexpr e)

/-- **Defaults in PostgreSQL** are written in the shapes of values. -/
theorem postgres_gives_default {c : Column} {t : ChosenType} {text result : String}
    (hexpr : ∀ e, DefaultValue.ofText .mysql text ≠ .expression e)
    (hfunction : ∀ f, DefaultValue.ofText .mysql text ≠ .function f)
    (h : Postgres.defaultText c t (.ofText .mysql text) = .ok result) :
    ∃ ks, Gives .postgresql result.toList ks ∧ ValueKinds ks := by
  have htruth : ∀ b, ∃ ks, Gives .postgresql (Postgres.truth b).toList ks ∧ ValueKinds ks := by
    intro b
    apply gives_valueWord
    cases b <;> decide
  generalize hv : DefaultValue.ofText .mysql text = value at h hexpr hfunction
  unfold Postgres.defaultText at h
  split at h
  · obtain rfl := Except.ok.inj h
    exact htruth _
  · cases value with
    | null =>
        obtain rfl := Except.ok.inj h
        exact gives_valueWord (by decide)
    | bool b =>
        obtain rfl := Except.ok.inj h
        exact htruth b
    | number n =>
        obtain rfl := Except.ok.inj h
        exact gives_number (isNumber_of_ofText hv)
    | string s =>
        dsimp only at h
        split at h
        · simp at h
        · obtain rfl := Except.ok.inj h
          exact gives_literalValue (d := .postgresql) s
    | currentTimestamp p =>
        obtain rfl := Except.ok.inj h
        exact gives_currentTimestamp (isPrecision_of_ofText hv)
    | currentDate =>
        obtain rfl := Except.ok.inj h
        exact gives_valueWord (by decide)
    | function f => exact absurd rfl (hfunction f)
    | expression e => exact absurd rfl (hexpr e)

end Schemata.Ddl
