import Mathlib.Data.List.Find
import Schemata.Proofs.Sql.AlikeTables
import Schemata.Proofs.Sql.Excerpts
import Schemata.Report.Output

/-! # Scripts that are put together

A source after another one and the end of a line has the tokens of both, those of the second one moved
(`Covers.append`).  They look like the tokens of the two sources alone (`alike_shift`), so where a
semicolon stands between two scripts, the tables of both together are those of the one and of the other,
and so is what is made of them (`parseAll_joined`). -/

namespace Schemata.Sql

open Schemata.Text Schemata.Report

variable {d : Dialect} {rules : Rules} {pos : Nat} {hash nested : Bool} {t : Token}
  {ts us tokens : List Token} {source rest gap a b : List Char}

/-! ### Gaps -/

theorem Skippable.append {gap' : List Char} (h : Skippable hash nested (gap' ++ rest) gap)
    (h' : Skippable hash nested rest gap') : Skippable hash nested rest (gap ++ gap') := by
  induction h with
  | nil => exact h'
  | blank hc _ ih => exact ih.blank hc
  | comment hc _ ih =>
      rw [List.append_assoc]
      refine .comment ?_ ih
      rwa [List.append_assoc]

/-- A gap at the end of a source goes on after the end of a line. -/
theorem Skippable.newline (h : Skippable hash nested [] gap) :
    Skippable hash nested rest (gap ++ ['\n']) := by
  have hnext : Skippable hash nested ('\n' :: rest) gap := by
    induction h with
    | nil => exact .nil
    | blank hc _ ih => exact ih.blank hc
    | @comment comment text hc _ ih =>
        refine .comment ?_ ih
        cases hc with
        | line hmark hline hend =>
            refine .line hmark hline fun c hc => ?_
            cases text with
            | nil => exact (Option.some.inj hc).symm
            | cons e text => exact hend c hc
        | block h => exact .block h
  exact hnext.append (.blank (by decide) .nil)

/-! ### Sources and their tokens -/

/-- **A source that is covered by tokens has these tokens.** -/
theorem tokensFrom_of_covers (h : Covers rules pos source ts) :
    tokensFrom rules pos source = .ok ts := by
  induction h with
  | @done pos gap hgap =>
      have hskip := skipGap_of_skippable pos hgap
      rw [List.append_nil, skipGap_nil] at hskip
      rw [tokensFrom_eq, hskip]
      rfl
  | @token pos gap text rest kind tokens hgap hlexes _ ih =>
      have hskip : IsGap rules gap := by
        obtain ⟨c, t, rfl, hblank, -⟩ := hlexes
        exact isGap_of_skippable hblank hgap
      rw [tokensFrom_gap hskip, tokensFrom_lexeme _ hlexes, ih]
      rfl

/-- A gap before a source. -/
theorem Covers.skip (h : Covers rules (pos + byteLength gap) source ts)
    (hgap : Skippable rules.hashComments rules.nestedComments source gap) :
    Covers rules pos (gap ++ source) ts := by
  cases h with
  | @done _ gap' hrest => exact .done (Skippable.append (by rwa [List.append_nil]) hrest)
  | @token _ gap' text rest kind tokens hgap' hlexes hrest =>
      rw [← List.append_assoc, Nat.add_assoc pos, ← byteLength_append]
      refine .token (hgap.append hgap') hlexes ?_
      rwa [byteLength_append, ← Nat.add_assoc]

theorem Token.shift_zero : Token.shift 0 = id := by
  funext t
  simp [Token.shift]

/-- A source that stands further on. -/
theorem Covers.shift (n : Nat) (h : Covers rules pos source ts) :
    Covers rules (n + pos) source (ts.map (Token.shift n)) := by
  induction h with
  | done hgap => exact .done hgap
  | @token pos gap text rest kind tokens hgap hlexes _ ih =>
      rw [← Nat.add_assoc, ← Nat.add_assoc] at ih
      rw [List.map_cons, Token.shift, ← Nat.add_assoc, ← Nat.add_assoc, ← Nat.add_assoc]
      exact .token hgap hlexes ih

/-- **A source after the end of a line** is covered by its tokens after those of the first source. -/
theorem Covers.append (h : Covers (rulesOf d) pos a ts)
    (hb : Covers (rulesOf d) (pos + byteLength a + 1) b us) :
    Covers (rulesOf d) pos (a ++ '\n' :: b) (ts ++ us) := by
  induction h with
  | @done pos gap hgap =>
      have hline : byteLength (gap ++ ['\n']) = byteLength gap + 1 := by
        rw [byteLength_append]
        rfl
      rw [List.append_cons]
      have hnext : Covers (rulesOf d) (pos + byteLength (gap ++ ['\n'])) b us := by
        rwa [hline, ← Nat.add_assoc]
      exact hnext.skip hgap.newline
  | @token pos gap text rest kind tokens hgap hlexes _ ih =>
      have hnext : Lexes (rulesOf d) kind text (rest ++ '\n' :: b) := by
        rw [← List.append_nil rest] at hlexes
        exact hlexes.exchange (separated_cons.2 (by decide))
      obtain ⟨c, r, rfl, -⟩ := hlexes
      rw [List.append_assoc, List.append_assoc]
      refine .token (hgap.of_head rfl) hnext (ih ?_)
      simpa only [byteLength_append, Nat.add_assoc] using hb

/-- Two sources with a semicolon between them, on a line of its own. -/
def joined (a b : List Char) : List Char := a ++ '\n' :: ';' :: '\n' :: b

/-- **Two sources with a semicolon between them** have the tokens of the one and the other. -/
theorem tokenize_joined (ha : tokenize (rulesOf d) a = .ok ts) (hb : tokenize (rulesOf d) b = .ok us) :
    ∃ span, tokenize (rulesOf d) (joined a b) =
      .ok (ts ++ ⟨.semicolon, span⟩ :: us.map (Token.shift (byteLength (a ++ ['\n', ';', '\n'])))) := by
  have hlength : byteLength (a ++ ['\n', ';', '\n']) = byteLength a + 1 + 1 + 1 := by
    rw [byteLength_append]
    rfl
  have hsecond : Covers (rulesOf d) (byteLength a + 1 + 1) ('\n' :: b)
      (us.map (Token.shift (byteLength (a ++ ['\n', ';', '\n'])))) := by
    have hmoved := (covers_of_tokensFrom hb).shift (byteLength (a ++ ['\n', ';', '\n']))
    rw [Nat.add_zero, hlength] at hmoved
    rw [hlength]
    have hblank : Skippable (rulesOf d).hashComments (rulesOf d).nestedComments b ['\n'] :=
      .blank (by decide) .nil
    exact hmoved.skip hblank
  have hsemicolon := @Covers.token (rulesOf d) (byteLength a + 1) [] [';'] ('\n' :: b) .semicolon _
    .nil (lexes_punctuation rfl _) hsecond
  rw [← Nat.zero_add (byteLength a)] at hsemicolon
  exact ⟨_, tokensFrom_of_covers ((covers_of_tokensFrom ha).append hsemicolon)⟩

/-! ### Tokens in a longer source -/

/-- The text of tokens is the same where the source stands in a longer one. -/
theorem sourceText_shift (h : tokenize rules source = .ok tokens) (hrun : ts <:+: tokens)
    (pre post : List Char) :
    sourceText (pre ++ source ++ post) (ts.map (Token.shift (byteLength pre))) =
      sourceText source ts := by
  by_cases hne : ts = []
  · subst hne
    rfl
  · obtain ⟨before, ps, after, rfl, hbounded, hfits, rfl⟩ := exists_bounded h hrun hne
    have hsplit : pre ++ (before ++ Layout.text ps ++ after) ++ post =
        pre ++ before ++ Layout.text ps ++ (after ++ post) := by
      simp only [List.append_assoc]
    rw [← tokensAt_add, ← byteLength_append, hsplit, sourceText_tokensAt _ _ hbounded hfits,
      sourceText_tokensAt _ _ hbounded hfits]

/-- **Tokens look alike in a longer source**, with the same texts. -/
theorem alike_shift (h : tokenize rules source = .ok tokens) (pre post : List Char) :
    Alike ⟨source, pre ++ source ++ post, True⟩ tokens (tokens.map (Token.shift (byteLength pre))) := by
  suffices hall : ∀ ts, ts <:+ tokens →
      Alike ⟨source, pre ++ source ++ post, True⟩ ts (ts.map (Token.shift (byteLength pre))) from
    hall tokens (List.suffix_refl _)
  intro ts hsuffix
  induction ts with
  | nil => exact .nil
  | cons t ts ih =>
      refine .cons rfl ?_ (fun n _ => ?_) (ih ((List.suffix_cons t ts).trans hsuffix))
      · intro t' ht u' hu
        obtain ⟨ts, rfl⟩ : ∃ r, ts = t' :: r := ⟨_, (List.cons_head?_tail ht).symm⟩
        obtain rfl := Option.some.inj hu
        exact (Nat.add_left_cancel_iff (n := byteLength pre)).symm
      · have hrun : (t :: ts).take n <:+: tokens :=
          (List.take_prefix _ _).isInfix.trans hsuffix.isInfix
        rw [← List.map_cons, ← List.map_take]
        exact (sourceText_shift h hrun pre post).symm

/-! ### Exact likeness -/

theorem AlikeColumns.eq {s : Sources} {c c' : Column} (hs : s.exact) (h : AlikeColumns s c c') : c = c' := by
  have text : ∀ {o o' : Option String}, Option.Rel (SameText s) o o' → o = o' := by
    intro o o' ho
    cases ho with
    | none => rfl
    | some htext => rw [htext hs]
  have hsame := h.sameColumn
  cases c
  cases c'
  simp only [Column.mk.injEq]
  exact ⟨hsame.name, hsame.rawType, text h.length, text h.precision, hsame.unsigned, hsame.notNull,
    hsame.autoIncrement, text h.defaultValue, hsame.comment, hsame.members⟩

theorem AlikeTables.eq {s : Sources} {a b : Table} (hs : s.exact) (h : AlikeTables s a b) : a = b := by
  have hcolumns : a.columns = b.columns := eq_of_forall₂ h.columns fun _ _ hc => hc.eq hs
  have hwarnings : a.warnings = b.warnings := eq_of_forall₂ h.warnings fun _ _ hw => hw hs
  cases a
  cases b
  simp only [Table.mk.injEq]
  exact ⟨h.dialect, h.name, hcolumns, h.primaryKeys, h.uniqueKeys, h.indexes, h.tableComment,
    h.columnComments, hwarnings⟩

/-- Statements that look exactly alike create the same tables. -/
theorem tablesOf_eq {s : Sources} {script script' : List (List Token)} {tables : List Table}
    (hs : s.exact) (h : List.Forall₂ (Alike s) script script')
    (htables : tablesOf rules s.left script = .ok tables) :
    tablesOf rules s.right script' = .ok tables := by
  have hall := alike_tablesOf rules h
  rw [htables] at hall
  cases hright : tablesOf rules s.right script' with
  | error e =>
      rw [hright] at hall
      cases hall
  | ok tables' =>
      rw [hright] at hall
      cases hall with
      | ok hsame => rw [eq_of_forall₂ hsame fun _ _ ht => ht.eq hs]

/-! ### Statements of both scripts -/

theorem split_semicolon (ht : t.kind = .semicolon) :
    statements.split (ts ++ t :: us) = statements.split ts ++ statements.split us := by
  induction ts with
  | nil => simp [statements.split, ht]
  | cons x ts ih =>
      rw [List.cons_append, statements.split, statements.split, ih]
      split
      · rfl
      · obtain ⟨part, parts, hparts⟩ := List.exists_cons_of_ne_nil (split_ne_nil ts)
        rw [hparts]
        rfl

theorem statements_semicolon (ht : t.kind = .semicolon) :
    statements (ts ++ t :: us) = statements ts ++ statements us := by
  rw [statements, split_semicolon ht, List.filter_append]
  rfl

theorem tablesOf_append {script script' : List (List Token)} {tables tables' : List Table}
    (h : tablesOf rules source script = .ok tables) (h' : tablesOf rules source script' = .ok tables') :
    tablesOf rules source (script ++ script') = .ok (tables ++ tables') := by
  induction script generalizing tables with
  | nil =>
      obtain rfl := Except.ok.inj h
      exact h'
  | cons statement script ih =>
      rw [List.cons_append, tablesOf]
      rw [tablesOf] at h
      cases hafter : afterCreateTable statement with
      | none =>
          rw [hafter] at h
          exact ih h
      | some after =>
          rw [hafter] at h
          dsimp only at h ⊢
          cases hcreate : createTable rules source statement after with
          | error e => simp [hcreate] at h
          | ok table =>
              rw [hcreate] at h
              dsimp only at h ⊢
              obtain ⟨others, hrest, rfl⟩ := exists_of_map_eq_ok h
              rw [ih hrest]
              rfl

/-! ### Scripts without comments -/

/-- A statement of the script starts with `COMMENT`. -/
def HasComment (d : Dialect) (script : String) : Prop :=
  ∃ tokens, tokenize (rulesOf d) script.toList = .ok tokens ∧
    ∃ statement ∈ statements tokens, ∃ t ∈ statement.head?, t.isKeyword "comment"

instance (d : Dialect) (script : String) : Decidable (HasComment d script) :=
  match h : tokenize (rulesOf d) script.toList with
  | .ok tokens =>
      decidable_of_iff (∃ statement ∈ statements tokens, ∃ t ∈ statement.head?, t.isKeyword "comment")
        ⟨fun hcomment => ⟨tokens, h, hcomment⟩, fun ⟨_, htokens, hcomment⟩ =>
          Except.ok.inj (h.symm.trans htokens) ▸ hcomment⟩
  | .error _ => isFalse fun ⟨_, htokens, _⟩ => nomatch h.symm.trans htokens

theorem comment_eq_none {statement : List Token}
    (h : ∀ t ∈ statement.head?, ¬t.isKeyword "comment") : Comment.ofTokens? statement = none := by
  have hwords : afterWords ["comment", "on"] statement = none := by
    cases statement with
    | nil => rfl
    | cons t ts => simp [afterWords, h t rfl]
  rw [Comment.ofTokens?, hwords]
  rfl

/-- Only a script that starts a statement with `COMMENT`, in a dialect that reads these, gives comments. -/
theorem commentsOf_eq_nil {script : String} (h : tokenize (rulesOf d) script.toList = .ok tokens)
    (hcomment : d = .postgresql → ¬HasComment d script) :
    commentsOf (rulesOf d) (statements tokens) = [] := by
  cases d with
  | mysql => rfl
  | postgresql =>
      have hnone : ∀ statement ∈ statements tokens, Comment.ofTokens? statement = none := by
        intro statement hmem
        exact comment_eq_none fun t ht hkeyword => hcomment rfl ⟨tokens, h, statement, hmem, t, ht, hkeyword⟩
      exact List.filterMap_eq_nil_iff.2 hnone

theorem commentsOf_append (script script' : List (List Token)) :
    commentsOf rules (script ++ script') = commentsOf rules script ++ commentsOf rules script' := by
  unfold commentsOf
  split
  · exact List.filterMap_append
  · rfl

/-- **Without comments, tokens give the tables of their statements**, of which there is at least one. -/
theorem tablesOfTokens_eq_ok {tables : List Table}
    (hcomments : commentsOf rules (statements tokens) = []) :
    tablesOfTokens rules source tokens = .ok tables ↔
      tablesOf rules source (statements tokens) = .ok tables ∧ tables ≠ [] := by
  unfold tablesOfTokens
  dsimp only
  rw [hcomments]
  cases tablesOf rules source (statements tokens) with
  | error e => simp
  | ok created =>
      cases created with
      | nil => simp +contextual
      | cons table others =>
          simp only [List.foldl_nil, Except.ok.injEq, iff_self_and]
          rintro rfl
          exact List.cons_ne_nil _ _

/-! ### Two scripts -/

variable {first second : String} {ta tb : List Table}

/-- The tables of a source that stands in a longer one, which gives no comments. -/
theorem tablesOf_shift {tables : List Table} (htokens : tokenize rules source = .ok tokens)
    (htables : tablesOf rules source (statements tokens) = .ok tables)
    (hcomments : commentsOf rules (statements tokens) = []) (pre post : List Char) :
    tablesOf rules (pre ++ source ++ post) (statements (tokens.map (Token.shift (byteLength pre)))) =
        .ok tables ∧
      commentsOf rules (statements (tokens.map (Token.shift (byteLength pre)))) = [] := by
  have halike := (alike_shift htokens pre post).statements
  exact ⟨tablesOf_eq trivial halike htables, (alike_commentsOf rules halike).symm.trans hcomments⟩

/-- **The tables of two scripts with a semicolon between them** are those of the one and the other. -/
theorem parseAll_append (ha : parseAll d first = .ok ta) (hb : parseAll d second = .ok tb)
    (hcomments : d = .postgresql → ¬HasComment d first ∧ ¬HasComment d second) :
    parseAll d (first ++ "\n;\n" ++ second) = .ok (ta ++ tb) := by
  obtain ⟨ts, hts, htables⟩ := tokens_of_parseAll ha
  obtain ⟨us, hus, hutables⟩ := tokens_of_parseAll hb
  have hnone := commentsOf_eq_nil hts fun hd => (hcomments hd).1
  have hunone := commentsOf_eq_nil hus fun hd => (hcomments hd).2
  obtain ⟨hcreated, hne⟩ := (tablesOfTokens_eq_ok hnone).1 htables
  obtain ⟨hucreated, -⟩ := (tablesOfTokens_eq_ok hunone).1 hutables
  -- the first script keeps its place, and the second one starts after the semicolon
  obtain ⟨hleft, hleftNone⟩ := tablesOf_shift hts hcreated hnone [] ('\n' :: ';' :: '\n' :: second.toList)
  obtain ⟨hright, hrightNone⟩ :=
    tablesOf_shift hus hucreated hunone (first.toList ++ ['\n', ';', '\n']) []
  have hstill : ts.map (Token.shift (byteLength [])) = ts := by
    rw [show byteLength [] = 0 from rfl, Token.shift_zero, List.map_id]
  have hsource : (first ++ "\n;\n" ++ second).toList = joined first.toList second.toList := by
    rw [String.toList_append, String.toList_append, List.append_assoc]
    rfl
  rw [hstill] at hleft hleftNone
  rw [List.append_nil, List.append_assoc] at hright
  obtain ⟨span, htokens⟩ := tokenize_joined hts hus
  simp only [parseAll, hsource, htokens]
  have hstatements := @statements_semicolon ⟨.semicolon, span⟩ ts
    (us.map (Token.shift (byteLength (first.toList ++ ['\n', ';', '\n'])))) rfl
  refine (tablesOfTokens_eq_ok ?_).2 ⟨?_, by simp [hne]⟩
  · rw [hstatements, commentsOf_append, hleftNone, hrightNone]
    rfl
  · rw [hstatements]
    exact tablesOf_append hleft hright

/-- **Scripts can be put together.**  With a semicolon between them they give the tables of the one and
of the other, and what is written for these. -/
theorem parseAll_joined (ha : parseAll d first = .ok ta) (hb : parseAll d second = .ok tb)
    (hcomments : d = .postgresql → ¬HasComment d first ∧ ¬HasComment d second) :
    parseAll d (first ++ "\n;\n" ++ second) = .ok (ta ++ tb) ∧
    (∀ options, ∃ ra rb,
      ConversionReport.ofScript (.outOf d) options first = .ok ra ∧
      ConversionReport.ofScript (.outOf d) options second = .ok rb ∧
      ConversionReport.ofScript (.outOf d) options (first ++ "\n;\n" ++ second) =
        .ok ⟨.outOf d, ra.outputs ++ rb.outputs⟩) ∧
    ∀ target options, ∃ ra rb,
      EntityReport.ofScript d target options first = .ok ra ∧
      EntityReport.ofScript d target options second = .ok rb ∧
      EntityReport.ofScript d target options (first ++ "\n;\n" ++ second) =
        .ok ⟨target, ra.outputs ++ rb.outputs⟩ := by
  have hall := parseAll_append ha hb hcomments
  have hsource : (Direction.outOf d).source = d := by cases d <;> rfl
  refine ⟨hall, fun options => ?_, fun target options => ?_⟩
  · simp only [ConversionReport.ofScript, hsource, ha, hb, hall, Except.map, Except.ok.injEq]
    exact ⟨_, _, rfl, rfl, by rw [List.map_append]⟩
  · simp only [EntityReport.ofScript, ha, hb, hall, Except.map, Except.ok.injEq]
    exact ⟨_, _, rfl, rfl, by rw [List.map_append]⟩

/-- A script that ends in a comment. -/
def planScript : String :=
  "CREATE TABLE plans (id serial PRIMARY KEY, fee numeric(5, 2) DEFAULT 1 + 1) $ -- a $tag$"

def plans : Table :=
  { dialect := .postgresql
    name := "plans"
    columns :=
      [{ name := "id", rawType := "serial", notNull := true, autoIncrement := true },
        { name := "fee", rawType := "numeric", length := some "5", precision := some "2",
          defaultValue := some "1" }]
    primaryKeys := ["id"] }

/-- A script with texts that are cut out of it. -/
def seatScript : String :=
  "CREATE TABLE seats (plan int, since date DEFAULT now(), EXCLUDE USING gist (plan))"

def seats : Table :=
  { dialect := .postgresql
    name := "seats"
    columns :=
      [{ name := "plan", rawType := "int" },
        { name := "since", rawType := "date", defaultValue := some "now()" }]
    warnings := ["Skipped unsupported constraint definition: EXCLUDE USING gist (plan)"] }

theorem plans_seats_joined :
    (¬HasComment .postgresql planScript ∧ ¬HasComment .postgresql seatScript) ∧
    parseAll .postgresql planScript = .ok [plans] ∧
    parseAll .postgresql seatScript = .ok [seats] ∧
    parseAll .postgresql (planScript ++ "\n;\n" ++ seatScript) = .ok [plans, seats] ∧
    ∃ ra rb, ConversionReport.ofScript .pgToMysql {} planScript = .ok ra ∧
      ConversionReport.ofScript .pgToMysql {} seatScript = .ok rb ∧
      ConversionReport.ofScript .pgToMysql {} (planScript ++ "\n;\n" ++ seatScript) =
        .ok ⟨.pgToMysql, ra.outputs ++ rb.outputs⟩ := by
  have hplans : parseAll .postgresql planScript = .ok [plans] := by decide +kernel
  have hseats : parseAll .postgresql seatScript = .ok [seats] := by decide +kernel
  have hcomments : ¬HasComment .postgresql planScript ∧ ¬HasComment .postgresql seatScript := by
    decide +kernel
  obtain ⟨hjoined, hconversions, -⟩ := parseAll_joined hplans hseats fun _ => hcomments
  exact ⟨hcomments, hplans, hseats, hjoined, hconversions {}⟩

end Schemata.Sql
