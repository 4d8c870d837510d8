import Schemata.Proofs.Sql.Quoting

/-! # Blanks and comments

What stands between tokens, as a grammar: blanks, comments up to the end of their line, and comments
between two marks, which nest or do not (`Skippable`).  A comment is read exactly where the grammar
has one (`scanComment_iff`), so what is skipped before a token is such a text
(`skippable_of_skipGap`), and such a text is skipped (`isGap_of_skippable`).  A source that can be
read is covered by its tokens and skippable texts (`covers_of_tokensFrom`). -/

namespace Schemata.Sql

open Schemata.Text

variable {rules : Rules} {pos outer : Nat} {hash nested : Bool} {text rest : List Char}

/-! ### The grammar of gaps -/

/-- The rest of a block comment that is open `outer + 1` times, up to the mark that closes it.  A mark
that opens comments counts if they nest. -/
inductive BlockRest (nested : Bool) : Nat → List Char → Prop
  | close : BlockRest nested 0 ['*', '/']
  | closeInner {outer : Nat} {text : List Char} (h : BlockRest nested outer text) :
      BlockRest nested (outer + 1) ('*' :: '/' :: text)
  | openInner {outer : Nat} {text : List Char} (hnested : nested)
      (h : BlockRest nested (outer + 1) text) : BlockRest nested outer ('/' :: '*' :: text)
  | other {outer : Nat} {c : Char} {text : List Char} (hclose : ¬['*', '/'] <+: c :: text)
      (hopen : nested → ¬['/', '*'] <+: c :: text) (h : BlockRest nested outer text) :
      BlockRest nested outer (c :: text)

/-- A comment before `rest`: one that goes to the end of its line, or one between two marks.  Two
dashes start a line comment, and so does a `#` if `hash` says so. -/
inductive IsComment (hash nested : Bool) (rest : List Char) : List Char → Prop
  | line {text : List Char} (hmark : ['-', '-'] <+: text ∨ hash ∧ ['#'] <+: text)
      (hline : '\n' ∉ text) (hend : ∀ c ∈ rest.head?, c = '\n') : IsComment hash nested rest text
  | block {text : List Char} (h : BlockRest nested 0 text) :
      IsComment hash nested rest ('/' :: '*' :: text)

/-- Blanks and comments before `rest`, and nothing else. -/
inductive Skippable (hash nested : Bool) (rest : List Char) : List Char → Prop
  | nil : Skippable hash nested rest []
  | blank {c : Char} {text : List Char} (hc : isBlank c) (h : Skippable hash nested rest text) :
      Skippable hash nested rest (c :: text)
  | comment {comment text : List Char} (hc : IsComment hash nested (text ++ rest) comment)
      (h : Skippable hash nested rest text) : Skippable hash nested rest (comment ++ text)

/-! ### Comments are read -/

theorem BlockRest.exists_cons (h : BlockRest nested outer text) : ∃ c r, text = c :: r := by
  cases h <;> exact ⟨_, _, rfl⟩

/-- A block comment is read up to the mark that closes it. -/
theorem scanBlock_of_blockRest (h : BlockRest nested outer text) (rest : List Char) :
    scanBlock nested outer (text ++ rest) = some ⟨(), text, rest⟩ := by
  induction h with
  | close => simp [scanBlock]
  | closeInner _ ih => simp [scanBlock, ih, Scanned.after]
  | openInner hnested _ ih =>
      subst hnested
      simp [scanBlock, ih, Scanned.after]
  | @other outer c text hclose hopen h ih =>
      obtain ⟨e, r, rfl⟩ := h.exists_cons
      have hnotClose : ¬(c = '*' ∧ e = '/') := by
        simpa [List.cons_prefix_cons, eq_comm] using hclose
      have hnotOpen : ¬(nested ∧ c = '/' ∧ e = '*') := by
        rintro ⟨hn, rfl, rfl⟩
        exact hopen hn (by simp)
      rw [List.cons_append] at ih
      simp only [List.cons_append, scanBlock, if_neg hnotClose, if_neg hnotOpen, ih]
      rfl

/-- What is read of a block comment goes up to the mark that closes it. -/
theorem blockRest_of_scanBlock {cs : List Char} {s : Scanned Unit}
    (h : scanBlock nested outer cs = some s) : BlockRest nested outer s.text := by
  fun_induction scanBlock nested outer cs generalizing s with
  | case1 => simp at h
  | case2 => simp at h
  | case3 a b r hend =>
      obtain ⟨rfl, rfl⟩ := hend
      obtain rfl := Option.some.inj h
      exact .close
  | case4 a b r hend n ih =>
      obtain ⟨rfl, rfl⟩ := hend
      obtain ⟨t, ht, rfl⟩ := Option.map_eq_some_iff.1 h
      exact .closeInner (ih ht)
  | case5 outer a b r _ hopen ih =>
      obtain ⟨hnested, rfl, rfl⟩ := hopen
      obtain ⟨t, ht, rfl⟩ := Option.map_eq_some_iff.1 h
      exact .openInner hnested (ih ht)
  | case6 outer a b r hend hopen ih =>
      obtain ⟨t, ht, rfl⟩ := Option.map_eq_some_iff.1 h
      obtain ⟨e, w, hw⟩ := (ih ht).exists_cons
      have happ := (reads_scanBlock ht).2
      rw [hw, List.cons_append] at happ
      obtain ⟨rfl, -⟩ := List.cons.inj happ
      refine .other ?_ ?_ (ih ht)
      · rw [hw]
        simpa [List.cons_prefix_cons, eq_comm] using hend
      · rw [hw]
        intro hn
        simpa [List.cons_prefix_cons, eq_comm, hn] using hopen

/-- The marks that start line comments. -/
theorem startsLineComment_iff {cs : List Char} :
    startsLineComment rules cs ↔ ['-', '-'] <+: cs ∨ rules.hashComments ∧ ['#'] <+: cs := by
  unfold startsLineComment
  split
  · simp
  · simp
  · rename_i hdash hhash
    have hno : ¬['-', '-'] <+: cs := by
      rintro ⟨r, rfl⟩
      exact hdash r rfl
    have hno' : ¬['#'] <+: cs := by
      rintro ⟨r, rfl⟩
      exact hhash r rfl
    simp [hno, hno']

theorem scanComment_line {cs : List Char} (h : startsLineComment rules cs) :
    scanComment rules cs = .ok (some (scanLine cs)) := by
  unfold scanComment
  rw [if_pos h]

theorem scanLine_append {text rest : List Char} (hline : '\n' ∉ text)
    (hend : ∀ c ∈ rest.head?, c = '\n') : scanLine (text ++ rest) = ⟨(), text, rest⟩ := by
  have hbefore : ∀ c ∈ text, decide (c ≠ '\n') = true := fun c hc =>
    decide_eq_true fun he => hline (he ▸ hc)
  have hafter : ∀ c ∈ rest.head?, decide (c ≠ '\n') = false := fun c hc =>
    decide_eq_false fun he => he (hend c hc)
  rw [scanLine, takeWhile_append_of_head hbefore hafter, dropWhile_append_of_head hbefore hafter]

/-- The rest of a line is a comment if it starts like one. -/
theorem isComment_scanLine {cs : List Char} (h : startsLineComment rules cs) :
    IsComment rules.hashComments rules.nestedComments (scanLine cs).rest (scanLine cs).text := by
  refine .line ?_ ?_ ?_
  · rcases startsLineComment_iff.1 h with ⟨r, rfl⟩ | ⟨hhash, r, rfl⟩
    · exact .inl (by simp [scanLine])
    · exact .inr ⟨hhash, by simp [scanLine]⟩
  · intro hmem
    simpa using List.all_eq_true.1 List.all_takeWhile _ hmem
  · intro c hc
    have hhead := List.head?_dropWhile_not (fun e => decide (e ≠ '\n')) cs
    rw [show (cs.dropWhile _).head? = some c from hc] at hhead
    simpa using hhead

/-- **Comments are read** where the grammar has one. -/
theorem scanComment_iff {cs : List Char} {s : Scanned Unit} :
    scanComment rules cs = .ok (some s) ↔
      cs = s.text ++ s.rest ∧
        IsComment rules.hashComments rules.nestedComments s.rest s.text := by
  constructor
  · intro h
    refine ⟨(reads_scanComment h).2.symm, ?_⟩
    unfold scanComment at h
    split at h
    · rename_i hline
      obtain rfl : scanLine cs = s := by simpa using h
      exact isComment_scanLine hline
    · split at h
      · split at h
        · rename_i hblock
          obtain rfl := Option.some.inj (Except.ok.inj h)
          exact .block (blockRest_of_scanBlock hblock)
        · simp at h
      · simp at h
  · obtain ⟨⟨⟩, text, rest⟩ := s
    rintro ⟨rfl, hcomment⟩
    cases hcomment with
    | line hmark hline hend =>
        have hstarts : startsLineComment rules (text ++ rest) := by
          rw [startsLineComment_iff]
          exact hmark.imp (·.trans (List.prefix_append _ _))
            fun hhash => ⟨hhash.1, hhash.2.trans (List.prefix_append _ _)⟩
        dsimp only
        rw [scanComment_line hstarts, scanLine_append hline hend]
    | block h => simp [scanComment, startsLineComment, scanBlock_of_blockRest h, Scanned.after]

/-- A comment starts with a character that is not blank. -/
theorem IsComment.exists_cons (h : IsComment hash nested rest text) :
    ∃ c r, text = c :: r ∧ isBlank c = false := by
  cases h with
  | line hmark =>
      rcases hmark with ⟨r, rfl⟩ | ⟨-, r, rfl⟩
      · exact ⟨_, _, rfl, by decide⟩
      · exact ⟨_, _, rfl, by decide⟩
  | block => exact ⟨_, _, rfl, by decide⟩

/-! ### Gaps are skipped -/

/-- **What is skipped** are blanks and comments. -/
theorem skippable_of_skipGap {cs : List Char} {stop : Nat}
    (h : skipGap rules pos cs = .ok (stop, rest)) :
    ∃ gap, cs = gap ++ rest ∧ stop = pos + byteLength gap ∧
      Skippable rules.hashComments rules.nestedComments rest gap := by
  fun_induction skipGap rules pos cs with
  | case1 pos =>
      obtain ⟨rfl, rfl⟩ : pos = stop ∧ [] = rest := by simpa using h
      exact ⟨[], rfl, rfl, .nil⟩
  | case2 pos c cs hc ih =>
      obtain ⟨gap, rfl, rfl, hgap⟩ := ih h
      exact ⟨c :: gap, rfl, by rw [byteLength_cons, Nat.add_assoc], hgap.blank hc⟩
  | case3 pos c cs _ s hs ih =>
      obtain ⟨gap, hrest, rfl, hgap⟩ := ih h
      obtain ⟨hcs, hcomment⟩ := scanComment_iff.1 hs
      rw [hrest] at hcs hcomment
      exact ⟨s.text ++ gap, by rw [hcs, List.append_assoc],
        by rw [byteLength_append, Nat.add_assoc], hgap.comment hcomment⟩
  | case4 pos c cs =>
      obtain ⟨rfl, rfl⟩ : pos = stop ∧ c :: cs = rest := by simpa using h
      exact ⟨[], rfl, rfl, .nil⟩
  | case5 => simp at h

theorem IsGap.blank {c : Char} {g : List Char} (h : isBlank c) (hg : IsGap rules g) :
    IsGap rules (c :: g) := by
  intro pos rest
  rw [List.cons_append, skipGap_blank h, hg, byteLength_cons, Nat.add_assoc]

/-- Only the first character after a gap matters to it. -/
theorem Skippable.of_head (h : Skippable hash nested rest text) {rest' : List Char}
    (hrest : rest.head? = rest'.head?) : Skippable hash nested rest' text := by
  induction h with
  | nil => exact .nil
  | blank hc _ ih => exact ih.blank hc
  | comment hc _ ih =>
      refine .comment ?_ ih
      cases hc with
      | line hmark hline hend =>
          refine .line hmark hline fun c hc => hend c ?_
          rw [List.head?_append] at hc ⊢
          rwa [hrest]
      | block h => exact .block h

/-- A gap before a character that is not blank is one anywhere: a comment that goes to the end of its
line has this end in the gap. -/
theorem Skippable.anywhere {c : Char} {r : List Char} (hc : isBlank c = false)
    (h : Skippable hash nested (c :: r) text) (rest : List Char) : Skippable hash nested rest text := by
  induction h with
  | nil => exact .nil
  | blank he _ ih => exact ih.blank he
  | @comment comment text hcomment _ ih =>
      refine .comment ?_ ih
      cases hcomment with
      | line hmark hline hend =>
          refine .line hmark hline ?_
          cases text with
          | nil =>
              obtain rfl := hend c rfl
              exact absurd hc (by decide)
          | cons e text => exact hend
      | block h => exact .block h

/-- A gap is skipped. -/
theorem skipGap_of_skippable (pos : Nat)
    (h : Skippable rules.hashComments rules.nestedComments rest text) :
    skipGap rules pos (text ++ rest) = skipGap rules (pos + byteLength text) rest := by
  induction h generalizing pos with
  | nil => rfl
  | blank hc _ ih =>
      rw [List.cons_append, skipGap_blank hc, ih, byteLength_cons, Nat.add_assoc]
  | @comment comment text hcomment _ ih =>
      have hscan : scanComment rules (comment ++ (text ++ rest)) =
          .ok (some ⟨(), comment, text ++ rest⟩) := scanComment_iff.2 ⟨rfl, hcomment⟩
      obtain ⟨e, w, rfl, he⟩ := hcomment.exists_cons
      rw [List.cons_append] at hscan
      rw [List.append_assoc, List.cons_append, skipGap_comment he hscan, ih, byteLength_append,
        Nat.add_assoc]

/-- **A gap before a token is skipped whatever follows.** -/
theorem isGap_of_skippable {c : Char} {r : List Char} (hc : isBlank c = false)
    (h : Skippable rules.hashComments rules.nestedComments (c :: r) text) : IsGap rules text :=
  fun pos rest => skipGap_of_skippable pos (h.anywhere hc rest)

/-! ### Sources are covered -/

/-- The tokens cover the source from byte `pos` on: each of them is read after a skippable text, and
what is left after the last one is skippable. -/
inductive Covers (rules : Rules) : Nat → List Char → List Token → Prop
  | done {pos : Nat} {gap : List Char}
      (hgap : Skippable rules.hashComments rules.nestedComments [] gap) : Covers rules pos gap []
  | token {pos : Nat} {gap text rest : List Char} {kind : TokenKind} {tokens : List Token}
      (hgap : Skippable rules.hashComments rules.nestedComments (text ++ rest) gap)
      (hlexes : Lexes rules kind text rest)
      (hrest : Covers rules (pos + byteLength gap + byteLength text) rest tokens) :
      Covers rules pos (gap ++ (text ++ rest))
        (⟨kind, ⟨pos + byteLength gap, pos + byteLength gap + byteLength text⟩⟩ :: tokens)

/-- **Tokens cover their source.** -/
theorem covers_of_tokensFrom {cs : List Char} {tokens : List Token}
    (h : tokensFrom rules pos cs = .ok tokens) : Covers rules pos cs tokens := by
  fun_induction tokensFrom rules pos cs generalizing tokens with
  | case1 => simp at h
  | case2 pos cs stop hgap =>
      obtain rfl : [] = tokens := by simpa using h
      obtain ⟨gap, rfl, -, hskip⟩ := skippable_of_skipGap hgap
      rw [List.append_nil]
      exact .done hskip
  | case3 => simp at h
  | case4 => simp at h
  | case5 pos cs start c r hgap s hscan stop others hrest =>
      rename_i ih
      obtain rfl := Except.ok.inj h
      obtain ⟨gap, rfl, rfl, hskip⟩ := skippable_of_skipGap hgap
      obtain ⟨hblank, hcomment⟩ := skipGap_ok hgap
      obtain ⟨hne, happ⟩ := reads_scanToken hscan
      obtain ⟨kind, text, rest⟩ := s
      obtain ⟨e, w, rfl⟩ := List.exists_cons_of_ne_nil hne
      obtain ⟨rfl, rfl⟩ : e = c ∧ w ++ rest = r := List.cons.inj happ
      exact .token hskip ⟨e, w, rfl, hblank, hcomment, fun _ => scanToken_move hscan⟩ (ih hrest)

end Schemata.Sql
