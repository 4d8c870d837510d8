import Schemata.Proofs.Sql.Failures
import Schemata.Proofs.Sql.Origins

/-! # Outcomes of reading a script

A script that has no tokens is refused with the lexical fault if a table is created before it, and
otherwise because no table is created at all (`Refused`).  A script with tokens is refused because of the
first malformed statement or because no statement creates a table, and otherwise gives one table for each
statement that creates one (`Classified`).  So the error of a script says what is wrong with it
(`parseAll_outcomes`). -/

namespace Schemata.Sql

open Schemata.Text

variable {d : Dialect} {rules : Rules} {source : List Char} {script : String} {e : LexError}
  {tokens : List Token}

/-! ### Scripts without tokens -/

/-- What becomes of a script with a lexical fault. -/
structure Refused (d : Dialect) (script : String) (e : LexError) : Prop where
  /-- The fault is at a character of the script. -/
  boundary : IsBoundary script.toList e.offset
  inside : e.offset < byteLength script.toList
  place : (ParseError.ofLexError script.toList e).location.offset = e.offset
  /-- A table is created before the fault, and the fault is the error, or no table is. -/
  decided : ∃ before, tokenize (rulesOf d) (takeBytes e.offset script.toList) = .ok before ∧
    (parseAll d script = .error (.ofLexError script.toList e) ↔
      ∃ statement, statement <:+ before ∧ CreatesTable statement) ∧
    ((¬∃ statement, statement <:+ before ∧ CreatesTable statement) →
      parseAll d script = .error (missingCreateTable script.toList 0))

/-- An error at a boundary of characters is located there. -/
theorem offset_atOffset {offset : Nat} (h : IsBoundary source offset) (fault : ParseFault) :
    (ParseError.atOffset source offset fault).location.offset = offset := by
  obtain ⟨before, after, rfl, rfl⟩ := h
  rw [ParseError.atOffset, Location.ofOffset, takeBytes_append]

/-- **A lexical fault decides on the error** with what stands before it. -/
theorem refused_of_tokenize (h : tokenize (rulesOf d) script.toList = .error e) : Refused d script e := by
  obtain ⟨hboundary, hinside, before, hbefore⟩ := tokenize_before_fault h
  refine ⟨hboundary, hinside, offset_atOffset hboundary _, before, hbefore, ?_⟩
  have hparse : parseAll d script = .error
      (if hasCreateTable before then .ofLexError script.toList e
        else missingCreateTable script.toList 0) := by
    simp only [parseAll, h, refuse, hbefore]
  rw [hparse, ← hasCreateTable_iff]
  by_cases hcreates : hasCreateTable before
  · simp [hcreates]
  · have hne : missingCreateTable script.toList 0 ≠ .ofLexError script.toList e := by
      intro he
      have := congrArg ParseError.fault he
      simp [missingCreateTable, ParseError.ofLexError, ParseError.atOffset] at this
    simp [hcreates, hne]

/-! ### Comments -/

/-- A table after comments: these change its comments, and there may be warnings about them. -/
structure Commented (created t : Table) : Prop where
  same : t = { created with
    tableComment := t.tableComment
    columnComments := t.columnComments
    warnings := t.warnings }
  warnings : created.warnings <+: t.warnings

theorem commented_refl (t : Table) : Commented t t := ⟨rfl, List.prefix_rfl⟩

theorem Commented.warned {created t : Table} (h : Commented created t) (notice : Notice) :
    Commented created (t.warned notice) := by
  refine ⟨?_, h.warnings.trans (List.prefix_append _ _)⟩
  conv => lhs; rw [h.same]
  rfl

theorem Commented.applyTo {created t : Table} (h : Commented created t) (comment : Comment) :
    Commented created (comment.applyTo t) := by
  unfold Comment.applyTo
  split
  · refine ⟨?_, h.warnings⟩
    conv => lhs; rw [h.same]
  · split
    · exact h.warned _
    · refine ⟨?_, h.warnings⟩
      conv => lhs; rw [h.same]

/-- The table of a statement after the comments of a script. -/
def FormsCommented (rules : Rules) (source : List Char) (statement : List Token) (t : Table) : Prop :=
  ∃ created, FormsTable rules source statement created ∧ Commented created t

theorem formsCommented_foldl (comments : List Comment) {script : List (List Token)}
    {tables : List Table} (h : List.Forall₂ (FormsCommented rules source) script tables) :
    List.Forall₂ (FormsCommented rules source) script
      (comments.foldl (fun ts c => c.applyAmong ts) tables) := by
  have modified : ∀ {f : Table → Table} {tables : List Table} (i : Nat),
      (∀ created t, Commented created t → Commented created (f t)) →
      List.Forall₂ (FormsCommented rules source) script tables →
      List.Forall₂ (FormsCommented rules source) script (tables.modify i f) := by
    intro f tables i hf hall
    have hid := forall₂_modify (f := id) (g := f) (fun statement t hforms => ?_) hall i
    · simpa using hid
    · obtain ⟨created, hcreated, hcomm⟩ := hforms
      exact ⟨created, hcreated, hf created t hcomm⟩
  induction comments generalizing tables with
  | nil => exact h
  | cons comment comments ih =>
      refine ih ?_
      unfold Comment.applyAmong
      dsimp only
      split
      · exact modified _ (fun _ _ hc => hc.applyTo comment) h
      · exact modified 0 (fun _ _ hc => hc.warned (.commentOnUnknownTable _)) h

/-! ### Scripts with tokens -/

/-- What becomes of a script with tokens. -/
structure Classified (d : Dialect) (script : String) (tokens : List Token) : Prop where
  notLexical : ∀ e, parseAll d script = .error e → ∀ fault, e.fault ≠ .lexical fault
  /-- A table is missing if no statement creates one. -/
  missing : (∃ e, parseAll d script = .error e ∧ e.fault = .missingCreateTable) ↔
    ∀ statement ∈ statements tokens, ¬CreatesTable statement
  /-- The first malformed statement is the error. -/
  malformed : (∃ statement ∈ statements tokens, IsMalformed statement) →
    ∃ before statement rest fault offset, statements tokens = before ++ statement :: rest ∧
      (∀ st ∈ before, ¬IsMalformed st) ∧ Malformed statement fault offset ∧
      parseAll d script = .error (.atOffset script.toList offset fault)
  /-- If none is, each statement that creates a table gives it. -/
  formed : (∃ statement ∈ statements tokens, CreatesTable statement) →
    (∀ statement ∈ statements tokens, ¬IsMalformed statement) →
    ∃ tables, parseAll d script = .ok tables ∧
      List.Forall₂ (FormsCommented (rulesOf d) script.toList)
        ((statements tokens).filter (CreatesTable ·)) tables

theorem Malformed.fault_ne {statement : List Token} {fault : ParseFault} {offset : Nat}
    (h : Malformed statement fault offset) :
    fault ≠ .missingCreateTable ∧ ∀ lex, fault ≠ .lexical lex := by
  cases h <;> simp

/-- A script whose first malformed statement is the error. -/
theorem classified_of_malformed {before rest : List (List Token)} {statement : List Token}
    {fault : ParseFault} {offset : Nat} (hstatements : statements tokens = before ++ statement :: rest)
    (hbefore : ∀ st ∈ before, ¬IsMalformed st) (hst : Malformed statement fault offset)
    (hfails : parseAll d script = .error (.atOffset script.toList offset fault)) :
    Classified d script tokens := by
  have hmem : statement ∈ statements tokens := by
    rw [hstatements]
    simp
  constructor
  case notLexical =>
    intro e he lex
    obtain rfl := Except.error.inj (hfails.symm.trans he)
    exact hst.fault_ne.2 lex
  case missing =>
    constructor
    · rintro ⟨e, he, hfault⟩
      obtain rfl := Except.error.inj (hfails.symm.trans he)
      exact absurd hfault hst.fault_ne.1
    · exact fun hnone => absurd (IsMalformed.createsTable ⟨fault, offset, hst⟩) (hnone _ hmem)
  case malformed =>
    exact fun _ => ⟨before, statement, rest, fault, offset, hstatements, hbefore, hst, hfails⟩
  case formed => exact fun _ hwell => absurd ⟨fault, offset, hst⟩ (hwell _ hmem)

/-- A script that gives its tables. -/
theorem classified_of_ok {tables : List Table} (hgives : parseAll d script = .ok tables)
    (hall : ∀ st ∈ statements tokens, ¬IsMalformed st)
    (hcreates : ∃ st ∈ statements tokens, CreatesTable st)
    (hforms : List.Forall₂ (FormsCommented (rulesOf d) script.toList)
      ((statements tokens).filter (CreatesTable ·)) tables) : Classified d script tokens := by
  constructor
  case notLexical => simp [hgives]
  case missing =>
    obtain ⟨st, hmem, hst⟩ := hcreates
    exact ⟨by simp [hgives], fun hnone => absurd hst (hnone st hmem)⟩
  case malformed => exact fun ⟨st, hmem, hst⟩ => absurd hst (hall st hmem)
  case formed => exact fun _ _ => ⟨tables, hgives, hforms⟩

/-- A script that creates no table. -/
theorem classified_of_none {offset : Nat}
    (hfails : parseAll d script = .error (missingCreateTable script.toList offset))
    (hnone : ∀ st ∈ statements tokens, ¬CreatesTable st) : Classified d script tokens := by
  constructor
  case notLexical =>
    intro e he lex
    obtain rfl := Except.error.inj (hfails.symm.trans he)
    simp [missingCreateTable, ParseError.atOffset]
  case missing => exact ⟨fun _ => hnone, fun _ => ⟨_, hfails, rfl⟩⟩
  case malformed => exact fun ⟨st, hmem, hst⟩ => absurd hst.createsTable (hnone st hmem)
  case formed => exact fun ⟨st, hmem, hst⟩ => absurd hst (hnone st hmem)

/-- **The outcome of a script with tokens** is decided by its statements. -/
theorem classified_of_tokenize (h : tokenize (rulesOf d) script.toList = .ok tokens) :
    Classified d script tokens := by
  have hparse : parseAll d script = tablesOfTokens (rulesOf d) script.toList tokens := by
    simp only [parseAll, h]
  rcases tablesOf_cases (rulesOf d) script.toList (statements tokens) with
    ⟨before, st, rest, fault, offset, hstatements, hbefore, hst, herror⟩ |
    ⟨hall, created, hok, hforms⟩
  · refine classified_of_malformed hstatements hbefore hst ?_
    simp only [hparse, tablesOfTokens, herror]
  -- comments change the tables, but neither give one nor take one away
  · have hcount : created = [] ↔ ∀ st ∈ statements tokens, ¬CreatesTable st := by
      have hlength := hforms.length_eq
      rw [← List.length_eq_zero_iff, ← hlength, List.length_eq_zero_iff, List.filter_eq_nil_iff]
      simp
    cases created with
    | nil =>
        have hfails : parseAll d script =
            .error (missingCreateTable script.toList (offsetIn [] tokens)) := by
          simp only [hparse, tablesOfTokens, hok]
        exact classified_of_none hfails (hcount.1 rfl)
    | cons t ts =>
        have hcreates : ∃ st ∈ statements tokens, CreatesTable st := by
          by_contra hne
          exact absurd (hcount.2 fun st hmem hst => hne ⟨st, hmem, hst⟩) (List.cons_ne_nil t ts)
        have hgives : parseAll d script = .ok ((commentsOf (rulesOf d) (statements tokens)).foldl
            (fun ts c => c.applyAmong ts) (t :: ts)) := by
          simp only [hparse, tablesOfTokens, hok]
        refine classified_of_ok hgives hall hcreates
          (formsCommented_foldl _ (hforms.imp fun st t ht => ?_))
        exact ⟨t, ht, commented_refl t⟩

/-- **What becomes of a script**: whether it has tokens, and which statements they make, says which error
it has or which tables it gives. -/
theorem parseAll_outcomes (d : Dialect) (script : String) :
    (∀ e, tokenize (rulesOf d) script.toList = .error e → Refused d script e) ∧
      ∀ tokens, tokenize (rulesOf d) script.toList = .ok tokens → Classified d script tokens :=
  ⟨fun _ => refused_of_tokenize, fun _ => classified_of_tokenize⟩

/-- A script with a literal that is not closed, in a table that is not the first statement. -/
def unclosedScript : String :=
  "CREATE INDEX i ON t (a);\nCREATE LOCAL TEMP TABLE /* t */ t (a text DEFAULT E'x\\'"

/-- A script with statements that create no table, a table, and tables without a name and without a
body. -/
def namelessScript : String :=
  "DROP TABLE a; CREATE TABLE a (b int); CREATE VIEW c; CREATE TABLE `` (d int); CREATE TABLE e"

theorem outcomes_faulty :
    (∃ e, tokenize (rulesOf .postgresql) unclosedScript.toList = .error e ∧ e.offset = 76 ∧
      Refused .postgresql unclosedScript e) ∧
    ∃ tokens, tokenize (rulesOf .mysql) namelessScript.toList = .ok tokens ∧
      (statements tokens).length = 5 ∧ Classified .mysql namelessScript tokens := by
  have herror : tokenize (rulesOf .postgresql) unclosedScript.toList = .error ⟨.openString, 76⟩ := by
    decide +kernel
  have hcount : (tokenize (rulesOf .mysql) namelessScript.toList).map (statements · |>.length) =
      .ok 5 := by
    decide +kernel
  refine ⟨⟨_, herror, rfl, (parseAll_outcomes .postgresql unclosedScript).1 _ herror⟩, ?_⟩
  obtain ⟨tokens, hread, hlength⟩ := exists_of_map_eq_ok hcount
  exact ⟨tokens, hread, hlength, (parseAll_outcomes .mysql namelessScript).2 _ hread⟩

end Schemata.Sql
