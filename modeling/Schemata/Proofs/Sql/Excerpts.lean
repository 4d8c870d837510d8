import Mathlib.Data.List.Find
import Schemata.Proofs.Sql.Origins
import Schemata.Proofs.Sql.Places

/-! # Excerpts of a source

A source that is cut at the start of one token and at the end of another gives the tokens between the
cuts, moved to its start (`tokenize_run`).  What a table keeps of its source word for word are such
excerpts: the parameters of types and the defaults (`excerpts_columns_of_parseAll`), and the texts in
warnings (`warningsTold_of_parseAll`).  So each of them can be read again (`tokenize_local`). -/

namespace Schemata

/-- The texts of the source that a column keeps: the parameters of its type and its default. -/
def Column.excerpts (c : Column) : List String :=
  c.length.toList ++ c.precision.toList ++ c.defaultValue.toList

/-- The messages on skipped definitions say what was skipped and with which text. -/
theorem SkippedDefinition.message_append {what what' : SkippedDefinition} {text text' : String}
    (h : what.message ++ ": " ++ text = what'.message ++ ": " ++ text') : text = text' := by
  have hchars := congrArg String.toList h
  simp only [String.toList_append, List.append_assoc] at hchars
  cases what <;> cases what' <;> simp [message] at hchars <;> exact String.toList_inj.1 hchars

end Schemata

namespace Schemata.Sql

open Schemata.Text Layout

variable {d : Dialect} {rules : Rules} {source : List Char} {t : Token} {ts tokens : List Token}

/-! ### Slices -/

/-- A token that stands `n` bytes further on. -/
def Token.shift (n : Nat) (t : Token) : Token :=
  { t with span := ⟨n + t.span.start, n + t.span.stop⟩ }

theorem tokensAt_add (n pos : Nat) (ps : Layout) :
    tokensAt (n + pos) ps = (tokensAt pos ps).map (Token.shift n) := by
  induction ps generalizing pos with
  | nil => rfl
  | cons p ps ih =>
      cases p with
      | gap text => exact (congrArg (tokensAt · ps) (Nat.add_assoc n pos _)).trans (ih _)
      | lexeme kind text =>
          have hrest := (congrArg (tokensAt · ps) (Nat.add_assoc n pos _)).trans
            (ih (pos + byteLength text))
          rw [tokensAt_lexeme, tokensAt_lexeme, List.map_cons, ← hrest]
          simp [Token.shift, Nat.add_assoc]

/-- **A run of tokens is read again** from the slice of the source that it takes. -/
theorem tokenize_run {first last : Token} (h : tokenize (rulesOf d) source = .ok tokens)
    (hrun : ts <:+: tokens) (hfirst : ts.head? = some first) (hlast : ts.getLast? = some last) :
    sourceText source ts = String.ofList (slice source first.span.start last.span.stop) ∧
      ∃ moved, tokenize (rulesOf d) (slice source first.span.start last.span.stop) = .ok moved ∧
        moved.map (Token.shift first.span.start) = ts := by
  have hne : ts ≠ [] := by
    rintro rfl
    simp at hfirst
  obtain ⟨pre, ps, post, rfl, hbounded, hfits, rfl⟩ := exists_bounded h hrun hne
  have hstart : first.span.start = byteLength pre := start_tokensAt hbounded first hfirst
  have hstop : last.span.stop = byteLength pre + byteLength (text ps) :=
    stop_tokensAt hbounded last hlast
  have hslice : slice (pre ++ text ps ++ post) first.span.start last.span.stop = text ps := by
    rw [hstart, hstop, slice_append]
  rw [hslice]
  refine ⟨sourceText_tokensAt pre post hbounded hfits, tokensAt 0 ps,
    tokenize_layout (hfits.exchange separated_nil), ?_⟩
  rw [hstart, ← tokensAt_add, Nat.add_zero]

/-! ### Excerpts -/

/-- A text that is cut out of the source from the start of one token to the end of another. -/
def IsExcerpt (d : Dialect) (source : List Char) (text : String) : Prop :=
  ∃ ts, IsRun d source ts ∧ ts ≠ [] ∧ text = sourceText source ts

/-- An excerpt is not empty. -/
theorem IsExcerpt.ne_empty {text : String} (h : IsExcerpt d source text) : text ≠ "" := by
  obtain ⟨ts, ⟨tokens, htokens, hrun⟩, hne, rfl⟩ := h
  obtain ⟨ps, htext, -, ⟨⟨kind, w, rs, rfl⟩, -⟩, hfits⟩ := exists_fills htokens hrun hne
  intro he
  rw [he, text_cons, Piece.text] at htext
  exact (hfits [] separated_nil).1.head.1 (List.append_eq_nil_iff.1 htext).1

/-- A text that by itself gives tokens of the source, all moved by the same number of bytes. -/
def ReadsAgain (d : Dialect) (source : List Char) (text : String) : Prop :=
  ∃ tokens moved n, tokenize (rulesOf d) source = .ok tokens ∧
    tokenize (rulesOf d) text.toList = .ok moved ∧ moved ≠ [] ∧
    moved.map (Token.shift n) <:+: tokens ∧ text = sourceText source (moved.map (Token.shift n))

theorem IsExcerpt.readsAgain {text : String} (h : IsExcerpt d source text) :
    ReadsAgain d source text := by
  obtain ⟨ts, ⟨tokens, htokens, hrun⟩, hne, rfl⟩ := h
  obtain ⟨htext, moved, hmoved, hshift⟩ := tokenize_run htokens hrun
    (List.head?_eq_some_head hne) (List.getLast?_eq_some_getLast hne)
  refine ⟨tokens, moved, _, htokens, ?_, ?_, hshift ▸ hrun, by rw [hshift]⟩
  · rw [htext, String.toList_ofList]
    exact hmoved
  · rintro rfl
    exact hne hshift.symm

/-! ### Texts of columns -/

/-- Parameters of a type are excerpts. -/
theorem excerpts_withParameters (h : IsRun d source ts) {c : Column}
    (hc : ∀ text ∈ c.excerpts, IsExcerpt d source text) :
    ∀ text ∈ (withParameters source ts c).excerpts, IsExcerpt d source text := by
  have param : ∀ (i : Nat) text, (splitDefinitions ts)[i]?.map (sourceText source) = some text →
      IsExcerpt d source text := by
    intro i text he
    obtain ⟨part, hpart, rfl⟩ := Option.map_eq_some_iff.1 he
    have hmem := List.mem_of_getElem? hpart
    have hne : part ≠ [] := by simpa [splitDefinitions] using (List.mem_filter.1 hmem).2
    exact ⟨part, h.mono (infix_of_mem_splitDefinitions hmem), hne, rfl⟩
  intro text htext
  unfold withParameters at htext
  dsimp only at htext
  split at htext
  · exact hc text htext
  · simp only [Column.excerpts, List.mem_append, Option.mem_toList] at htext
    rcases htext with (htext | htext) | htext
    · exact param 0 text htext
    · exact param 1 text htext
    · exact hc text (by simp [Column.excerpts, htext])

/-- What a type says of its column holds excerpts. -/
theorem excerpts_columnOfType? (h : IsRun d source ts) {name : String} {c : Column}
    {rest : List Token} (hread : columnOfType? rules source name ts = some (c, rest)) :
    ∀ text ∈ c.excerpts, IsExcerpt d source text := by
  obtain ⟨-, _, first, words, dimensions, -, -, hc | ⟨params, hparams, hc⟩⟩ :=
    columnOfType?_cases hread
  · rw [hc]
    simp [Column.excerpts]
  · have hexcerpts : c.excerpts = (withParameters source params { name, rawType := "" }).excerpts := by
      rw [hc, Column.excerpts, Column.excerpts]
    rw [hexcerpts]
    exact excerpts_withParameters (h.mono hparams) (by simp [Column.excerpts])

/-- An attribute that is a default gives an excerpt. -/
theorem excerpts_add {r : List Token} (h : IsRun d source (t :: r)) {dec : Declaration}
    (hdec : ∀ text ∈ dec.column.excerpts, IsExcerpt d source text) :
    ∀ text ∈ (dec.add (readAttribute rules source t r).1).column.excerpts,
      IsExcerpt d source text := by
  cases hread : (readAttribute rules source t r).1 with
  | defaultTo value =>
      obtain ⟨run, _, _, hr, -, hne, hvalue⟩ :=
        exists_operand (defaultAttribute_of_readAttribute hread)
      have hrun : run <:+: t :: r := by
        conv => rhs; rw [hr]
        exact List.infix_cons (List.prefix_append _ _).isInfix
      intro text htext
      simp only [Declaration.add, Column.excerpts, List.mem_append, Option.mem_toList] at htext
      rcases htext with (htext | htext) | htext
      · exact hdec text (by simp [Column.excerpts, htext])
      · exact hdec text (by simp [Column.excerpts, htext])
      · exact ⟨run, h.mono hrun, hne, (Option.some.inj htext).symm.trans hvalue⟩
  | nextValue =>
      intro text htext
      refine hdec text ?_
      simp only [Declaration.add, Column.excerpts, Option.toList_none, List.append_nil] at htext
      exact List.mem_append_left _ htext
  | _ => exact hdec

/-- **The parameters and defaults of columns are excerpts** of the script. -/
theorem excerpts_columns_of_parseAll {script : String} {tables : List Table}
    (h : parseAll d script = .ok tables) :
    ∀ t ∈ tables, ∀ c ∈ t.columns, ∀ text ∈ c.excerpts, IsExcerpt d script.toList text :=
  forall_columns_of_parseAll (P := fun c => ∀ text ∈ c.excerpts, IsExcerpt d script.toList text) h
    (fun _ hrun _ _ _ hread => excerpts_columnOfType? hrun hread)
    (fun _ _ hrun _ hdec => excerpts_add hrun hdec) fun _ hc => hc

/-- No parameter of a type is empty. -/
def FilledParams (c : Column) : Prop := c.length ≠ some "" ∧ c.precision ≠ some ""

/-- **No parameter of a column of a script is empty.** -/
theorem filledParams_of_parseAll {script : String} {tables : List Table}
    (h : parseAll d script = .ok tables) : ∀ t ∈ tables, ∀ c ∈ t.columns, FilledParams c := by
  intro t ht c hc
  have hne : "" ∉ c.excerpts := fun hmem =>
    (excerpts_columns_of_parseAll h t ht c hc "" hmem).ne_empty rfl
  constructor <;> intro he <;> exact hne (by simp [Column.excerpts, he])

/-! ### Texts of warnings -/

/-- What reading a script may tell: the text of a definition that was skipped is an excerpt. -/
inductive Told (d : Dialect) (source : List Char) : Notice → Prop
  | skipped (what : SkippedDefinition) {text : String} (h : IsExcerpt d source text) :
      Told d source (.skipped what text)
  | dropped (column : String) (clause : DroppedClause) : Told d source (.dropped column clause)
  | keptType (column type : String) : Told d source (.keptType column type)
  | noColumns (table : String) : Told d source (.noColumns table)
  | unknownTable (table : String) : Told d source (.commentOnUnknownTable table)
  | unknownColumn (table column : String) : Told d source (.commentOnUnknownColumn table column)

theorem head?_append {s t : String} {c : Char} (h : s.toList.head? = some c) :
    (s ++ t).toList.head? = some c := by
  rw [String.toList_append, List.head?_append, h, Option.some_or]

/-- The text in a message on a skipped definition is an excerpt. -/
theorem Told.isExcerpt {n : Notice} (h : Told d source n) {what : SkippedDefinition} {text : String}
    (hmessage : n.message = (Notice.skipped what text).message) : IsExcerpt d source text := by
  have hskipped : (Notice.skipped what text).message.toList.head? = some 'S' :=
    head?_append (head?_append (by cases what <;> simp [SkippedDefinition.message]))
  -- all other messages start with another letter
  have other : ∀ c, n.message.toList.head? = some c → c = 'S' := by
    intro c hc
    rw [hmessage, hskipped] at hc
    exact (Option.some.inj hc).symm
  cases h with
  | skipped what' h => exact SkippedDefinition.message_append hmessage ▸ h
  | dropped column clause =>
      exact absurd (other 'C' (head?_append (head?_append (head?_append (by simp))))) (by decide)
  | keptType column type =>
      exact absurd (other 'U' (head?_append (head?_append (head?_append (head?_append
        (head?_append (by simp))))))) (by decide)
  | noColumns table => exact absurd (other 'T' (head?_append (head?_append (by simp)))) (by decide)
  | unknownTable table =>
      exact absurd (other 'C' (head?_append (head?_append (by simp)))) (by decide)
  | unknownColumn table column =>
      exact absurd (other 'C' (head?_append (head?_append (head?_append (head?_append (by simp))))))
        (by decide)

/-- Every warning of a table is the message of something told. -/
def WarningsTold (d : Dialect) (source : List Char) (t : Table) : Prop :=
  ∀ w ∈ t.warnings, ∃ n, Told d source n ∧ w = n.message

theorem WarningsTold.warned {t : Table} (h : WarningsTold d source t) {n : Notice}
    (hn : Told d source n) : WarningsTold d source (t.warned n) := by
  intro w hw
  rcases List.mem_append.1 hw with hw | hw
  · exact h w hw
  · exact ⟨n, hn, List.mem_singleton.1 hw⟩

/-- The notices on attributes are on dropped clauses. -/
theorem told_foldl_add (as : List Attribute) {dec : Declaration}
    (h : ∀ n ∈ dec.notices, Told d source n) :
    ∀ n ∈ (as.foldl Declaration.add dec).notices, Told d source n := by
  induction as generalizing dec with
  | nil => exact h
  | cons a as ih =>
      refine ih ?_
      cases a with
      | dropped clause =>
          intro n hn
          rcases List.mem_append.1 hn with hn | hn
          · exact h n hn
          · exact List.mem_singleton.1 hn ▸ Told.dropped _ clause
      | _ => exact h

theorem told_columnDefinition? {c : Column} {primary unique : Bool} {notices : List Notice}
    (h : columnDefinition? rules source ts = some (.column c primary unique notices)) :
    ∀ n ∈ notices, Told d source n := by
  obtain ⟨tail, _, _, _, -, rfl, hc⟩ := columnDefinition?_eq_some h
  obtain ⟨-, -, -, rfl⟩ := Definition.column.inj hc
  intro n hn
  rcases List.mem_append.1 hn with hn | hn
  · exact told_foldl_add (attributes rules source tail) (by simp) n hn
  · unfold Declaration.typeNotices at hn
    split at hn
    · simp at hn
    · exact List.mem_singleton.1 hn ▸ Told.keptType _ _

/-- A definition that is skipped tells its own text. -/
theorem told_ofTokens (h : IsRun d source ts) (hne : ts ≠ []) {n : Notice}
    (hn : Definition.ofTokens rules source ts = .skipped n) : Told d source n := by
  have hexcerpt : IsExcerpt d source (sourceText source ts) := ⟨ts, h, hne, rfl⟩
  have keyed : ∀ {key what us}, (∀ names, key names ≠ .skipped n) →
      keyed key what (sourceText source ts) us = .skipped n → Told d source n := by
    intro key what us hkey hk
    unfold Sql.keyed at hk
    split at hk
    · exact absurd hk (hkey _)
    · exact Definition.skipped.inj hk ▸ .skipped what hexcerpt
  have constraint : ∀ {us}, tableConstraint rules (sourceText source ts) us = .skipped n →
      Told d source n := by
    intro us hc
    unfold tableConstraint at hc
    split at hc
    · exact keyed (by simp) hc
    · exact keyed (by simp) hc
    · split at hc
      · exact keyed (by simp) hc
      · exact Definition.skipped.inj hc ▸ .skipped .constraint hexcerpt
  unfold Definition.ofTokens at hn
  dsimp only at hn
  split at hn
  · exact constraint hn
  · split at hn
    · exact constraint hn
    · cases hd : columnDefinition? rules source ts with
      | none =>
          rw [hd] at hn
          exact Definition.skipped.inj hn ▸ .skipped .column hexcerpt
      | some definition =>
          obtain ⟨_, _, _, _, _, _, -, rfl⟩ := declares_of_columnDefinition? hd
          simp [hd] at hn

theorem WarningsTold.add {t : Table} (h : WarningsTold d source t) (hrun : IsRun d source ts)
    (hne : ts ≠ []) : WarningsTold d source (t.add (Definition.ofTokens rules source ts)) := by
  cases hdef : Definition.ofTokens rules source ts with
  | column c primary unique notices =>
      intro w hw
      rcases List.mem_append.1 hw with hw | hw
      · exact h w hw
      · obtain ⟨n, hn, rfl⟩ := List.mem_map.1 hw
        exact ⟨n, told_columnDefinition? (columnDefinition?_of_ofTokens hdef) n hn, rfl⟩
  | skipped n => exact h.warned (told_ofTokens hrun hne hdef)
  | _ => exact h

theorem warningsTold_tableOf {body : List Token} (hbody : IsRun d source body) (name : String) :
    WarningsTold d source (tableOf rules source name body) := by
  have hfold : ∀ parts : List (List Token), (∀ part ∈ parts, IsRun d source part ∧ part ≠ []) →
      ∀ t, WarningsTold d source t →
      WarningsTold d source ((parts.map (Definition.ofTokens rules source)).foldl Table.add t) := by
    intro parts
    induction parts with
    | nil => exact fun _ t ht => ht
    | cons part parts ih =>
        intro hparts t ht
        obtain ⟨hrun, hne⟩ := hparts part (by simp)
        exact ih (fun part' h' => hparts part' (by simp [h'])) _ (ht.add hrun hne)
  have hall := hfold (splitDefinitions body)
    (fun part hpart => ⟨hbody.mono (infix_of_mem_splitDefinitions hpart),
      by simpa [splitDefinitions] using (List.mem_filter.1 hpart).2⟩)
    { dialect := rules.dialect, name } (by simp [WarningsTold])
  unfold tableOf
  dsimp only
  split
  · exact WarningsTold.warned hall (.noColumns name)
  · exact hall

/-- **What the warnings of a script tell.** -/
theorem warningsTold_of_parseAll {script : String} {tables : List Table}
    (h : parseAll d script = .ok tables) : ∀ t ∈ tables, WarningsTold d script.toList t := by
  refine forall_of_parseAll h ?_ ?_ fun t name ht => ht.warned (.unknownTable name)
  · rintro tokens htokens t ⟨name, body, comment, -, hbody, rfl⟩
    exact warningsTold_tableOf ⟨tokens, htokens, hbody⟩ name
  · intro _ comment t ht
    unfold Comment.applyTo
    split
    · exact ht
    · split
      · exact ht.warned (.unknownColumn _ _)
      · exact ht

/-! ### Texts that are read again -/

/-- The texts that a table keeps of a source give the tokens that they were cut from. -/
structure TextsReadAgain (d : Dialect) (source : List Char) (t : Table) : Prop where
  columns : ∀ c ∈ t.columns, ∀ text ∈ c.excerpts, ReadsAgain d source text
  warnings : ∀ what text, (Notice.skipped what text).message ∈ t.warnings → ReadsAgain d source text

/-- **Reading tokens is local**: what lies between the start of a token and the end of a later one
gives the tokens from the one to the other, moved to its start, and so do the texts that tables
keep. -/
theorem tokenize_local {script : String} (h : tokenize (rulesOf d) script.toList = .ok tokens) :
    (∀ (i j : Nat) (_ : i ≤ j) (_ : j < tokens.length), ∃ moved,
      tokenize (rulesOf d) (slice script.toList tokens[i].span.start tokens[j].span.stop) =
        .ok moved ∧
      moved.map (Token.shift tokens[i].span.start) = (tokens.drop i).take (j + 1 - i)) ∧
    ∀ tables, parseAll d script = .ok tables → ∀ t ∈ tables, TextsReadAgain d script.toList t := by
  refine ⟨fun i j hij hj => ?_, fun tables hparse t ht => ⟨fun c hc text htext => ?_,
    fun what text hmem => ?_⟩⟩
  · have hrun : (tokens.drop i).take (j + 1 - i) <:+: tokens :=
      (List.take_prefix _ _).isInfix.trans (List.drop_suffix _ _).isInfix
    refine (tokenize_run h hrun ?_ ?_).2
    · rw [List.head?_take, if_neg (by omega), List.head?_drop, List.getElem?_eq_getElem]
    · rw [List.getLast?_take, if_neg (by omega), List.getElem?_drop,
        show i + (j + 1 - i - 1) = j by omega, List.getElem?_eq_getElem hj, Option.some_or]
  · exact (excerpts_columns_of_parseAll hparse t ht c hc text htext).readsAgain
  · obtain ⟨n, hn, hmessage⟩ := warningsTold_of_parseAll hparse t ht _ hmem
    exact (hn.isExcerpt hmessage.symm).readsAgain

/-- A script with numbers that start with a point or have an exponent, strings with escapes and between
marks, a cast, and a definition that is not understood. -/
def wageScript : String :=
  "CREATE TABLE wages (rate numeric(1e3,.5) DEFAULT E'a\\'b'::text, note text DEFAULT $a$;$a$,\n" ++
    "-- no key\nLIKE \"old wages\")"

/-- The table of the script. -/
def wages : Table :=
  { dialect := .postgresql
    name := "wages"
    columns :=
      [{ name := "rate", rawType := "numeric", length := some "1e3", precision := some ".5"
         defaultValue := some "E'a\\'b'" },
        { name := "note", rawType := "text", defaultValue := some "$a$;$a$" }]
    warnings := [(Notice.skipped .constraint "LIKE \"old wages\"").message] }

theorem parseAll_wages : parseAll .postgresql wageScript = .ok [wages] := by
  decide +kernel

theorem wages_local : ∃ tokens, tokenize (rulesOf .postgresql) wageScript.toList = .ok tokens ∧
    tokens.length = 24 ∧ parseAll .postgresql wageScript = .ok [wages] ∧
    TextsReadAgain .postgresql wageScript.toList wages := by
  have hlength : (tokenize (rulesOf .postgresql) wageScript.toList).map List.length = .ok 24 := by
    decide +kernel
  obtain ⟨tokens, htokens, hcount⟩ := exists_of_map_eq_ok hlength
  exact ⟨tokens, htokens, hcount, parseAll_wages,
    (tokenize_local htokens).2 [wages] parseAll_wages wages (List.mem_singleton.2 rfl)⟩

end Schemata.Sql
