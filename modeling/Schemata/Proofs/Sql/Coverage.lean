import Mathlib.Data.List.Find
import Schemata.Proofs.Sql.Places

/-! # Nothing of a source is lost

The tokens of a source cut it at boundaries of characters, one after the other and without overlap,
and words, numbers and punctuation are spelled where they stand.  What is left before, between and
after them are blanks and whole comments of the dialect (`lossless_of_tokenize`). -/

namespace Schemata.Sql

open Schemata.Text

variable {d : Dialect} {rules : Rules} {pos : Nat} {source before text rest : List Char} {span : Span}
  {tokens : List Token}

/-! ### Spans -/

/-- A byte offset at which no character is split. -/
def IsBoundary (source : List Char) (offset : Nat) : Prop :=
  ∃ before after, source = before ++ after ∧ offset = byteLength before

theorem Cuts.start_le (h : Cuts pos source span text rest) : pos ≤ span.start := by
  obtain ⟨before, -, rfl⟩ := h
  exact Nat.le_add_right _ _

theorem Cuts.stop_le (h : Cuts pos source span text rest) :
    span.stop ≤ pos + byteLength source := by
  obtain ⟨before, rfl, rfl⟩ := h
  simp only [byteLength_append]
  omega

theorem Cuts.start_lt_stop (h : Cuts pos source span text rest) (hne : text ≠ []) :
    span.start < span.stop := by
  obtain ⟨before, -, rfl⟩ := h
  have hpos : byteLength text ≠ 0 := mt eq_nil_of_byteLength hne
  show pos + byteLength before < pos + byteLength before + byteLength text
  omega

/-- A span that cuts a text out of a source splits no character. -/
theorem Cuts.isBoundary (h : Cuts 0 source span text rest) :
    IsBoundary source span.start ∧ IsBoundary source span.stop := by
  obtain ⟨before, rfl, rfl⟩ := h
  constructor
  · exact ⟨before, text ++ rest, rfl, Nat.zero_add _⟩
  · refine ⟨before ++ text, rest, (List.append_assoc _ _ _).symm, ?_⟩
    rw [byteLength_append, Nat.zero_add]

/-! ### Sources that are covered -/

/-- The spans before, between and after tokens, from the byte `pos` to the byte `stop`. -/
def gapSpans (pos stop : Nat) : List Token → List Span
  | [] => [⟨pos, stop⟩]
  | t :: ts => ⟨pos, t.span.start⟩ :: gapSpans t.span.stop stop ts

/-- A token stands behind those before it. -/
theorem Covers.pairwise (h : Covers rules pos source tokens) :
    tokens.Pairwise fun t u => t.span.stop ≤ u.span.start := by
  induction h with
  | done => exact .nil
  | token hgap hlexes hrest ih =>
      refine .cons ?_ ih
      intro u hu
      obtain ⟨text, rest, hcuts, -⟩ := hrest.exists_cuts u hu
      exact hcuts.start_le

/-- What is not cut out for tokens is skippable. -/
theorem Covers.skippable (h : Covers rules pos source tokens) :
    ∀ g ∈ gapSpans pos (pos + byteLength source) tokens, ∃ text rest,
      Cuts pos source g text rest ∧
        Skippable rules.hashComments rules.nestedComments rest text := by
  induction h with
  | @done pos gap hgap =>
      intro g hg
      obtain rfl := List.mem_singleton.1 hg
      have hcuts := cuts_start pos gap []
      rw [List.append_nil] at hcuts
      exact ⟨gap, [], hcuts, hgap⟩
  | @token pos gap text rest kind tokens hgap hlexes hrest ih =>
      intro g hg
      rcases List.mem_cons.1 hg with rfl | hg
      · exact ⟨gap, text ++ rest, cuts_start pos gap _, hgap⟩
      · have hstop : pos + byteLength (gap ++ (text ++ rest)) =
            pos + byteLength gap + byteLength text + byteLength rest := by
          simp only [byteLength_append]
          omega
        rw [hstop] at hg
        obtain ⟨text', rest', hcuts, hskip⟩ := ih g hg
        exact ⟨text', rest', hcuts.after.after, hskip⟩

/-! ### Sources and tokens -/

/-- The tokens of a source leave nothing of it out but blanks and comments, and nothing is read
twice. -/
structure Lossless (d : Dialect) (source : List Char) (tokens : List Token) : Prop where
  /-- No token is empty. -/
  nonempty : ∀ t ∈ tokens, t.span.start < t.span.stop
  /-- A token ends before the tokens after it start. -/
  ordered : tokens.Pairwise fun t u => t.span.stop ≤ u.span.start
  inside : ∀ t ∈ tokens, t.span.stop ≤ byteLength source
  boundaries : ∀ t ∈ tokens, IsBoundary source t.span.start ∧ IsBoundary source t.span.stop
  /-- Words, numbers and punctuation stand in the source as they are spelled. -/
  spelled : ∀ t ∈ tokens, ∀ text, t.kind.spelling? = some text →
    slice source t.span.start t.span.stop = text
  /-- Before, between and after the tokens there are blanks and comments: those that start with a `#`
  in MySQL, nested ones in PostgreSQL. -/
  gaps : ∀ g ∈ gapSpans 0 (byteLength source) tokens, ∃ text rest, Cuts 0 source g text rest ∧
    Skippable (d = .mysql) (d = .postgresql) rest text

/-- **Nothing of a source is lost** when it is read into tokens. -/
theorem lossless_of_tokenize (h : tokenize (rulesOf d) source = .ok tokens) :
    Lossless d source tokens := by
  have hcovers : Covers (rulesOf d) 0 source tokens := covers_of_tokensFrom h
  have hrules : (rulesOf d).hashComments = decide (d = .mysql) ∧
      (rulesOf d).nestedComments = decide (d = .postgresql) := by
    cases d <;> decide
  constructor
  case nonempty =>
    intro t ht
    obtain ⟨text, rest, hcuts, hlexes⟩ := hcovers.exists_cuts t ht
    exact hcuts.start_lt_stop hlexes.head.1
  case ordered => exact hcovers.pairwise
  case inside =>
    intro t ht
    obtain ⟨text, rest, hcuts, -⟩ := hcovers.exists_cuts t ht
    simpa using hcuts.stop_le
  case boundaries =>
    intro t ht
    obtain ⟨text, rest, hcuts, -⟩ := hcovers.exists_cuts t ht
    exact hcuts.isBoundary
  case spelled =>
    intro t ht w hw
    obtain ⟨text, rest, hcuts, hlexes⟩ := hcovers.exists_cuts t ht
    rw [hcuts.slice_eq, hlexes.spelled hw]
  case gaps =>
    rw [← hrules.1, ← hrules.2]
    simpa using hcovers.skippable

/-- A source with characters of several bytes, a nested comment, and a comment at its end. -/
def remarkedSource : List Char := "größe /* a /* b */ c */(1e5) -- ß".toList

theorem lossless_remarked :
    ∃ tokens, tokenize postgresRules remarkedSource = .ok tokens ∧ tokens.length = 4 ∧
      Lossless .postgresql remarkedSource tokens := by
  have hread : tokenize postgresRules remarkedSource =
      .ok [⟨.word "größe", ⟨0, 7⟩⟩, ⟨.lparen, ⟨25, 26⟩⟩, ⟨.number "1e5", ⟨26, 29⟩⟩,
        ⟨.rparen, ⟨29, 30⟩⟩] := by
    decide +kernel
  exact ⟨_, hread, rfl, lossless_of_tokenize hread⟩

end Schemata.Sql
