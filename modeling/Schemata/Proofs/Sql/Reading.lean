import Mathlib.Data.List.Forall2
import Schemata.Proofs.Sql.Gaps
import Schemata.Proofs.Sql.Locality

/-! # Texts that can be read by themselves

Every source that can be read has a layout (`exists_layout`).  A text that can be read by itself up
to its last character gives tokens of the same kinds wherever it stands before a separator
(`gives_of_wholeKinds?`), and such texts can be put together (`Gives.append`). -/

namespace Schemata.Sql

open Schemata.Text Layout

variable {rules : Rules} {pos : Nat} {d : Dialect}

/-! ### Layouts are found by reading -/

/-- **Sources that can be read have a layout**, up to a gap at their end. -/
theorem exists_layout {cs : List Char} {tokens : List Token}
    (h : tokensFrom rules pos cs = .ok tokens) :
    ∃ ps tail, cs = Layout.text ps ++ tail ∧ tokensAt pos ps = tokens ∧ Fits rules tail ps ∧
      (∀ last ∈ tokens.getLast?, last.span.stop = pos + byteLength (Layout.text ps)) ∧
      (tokens = [] → ps = []) := by
  replace h := covers_of_tokensFrom h
  induction h with
  | @done pos gap hgap => exact ⟨[], gap, rfl, rfl, trivial, by simp, fun _ => rfl⟩
  | @token pos gap text rest kind tokens hgap hlexes _ ih =>
      obtain ⟨ps, tail, rfl, htokens, hfits, hlast, hnil⟩ := ih
      have hskip : IsGap rules gap := by
        obtain ⟨c, t, rfl, hblank, -⟩ := hlexes
        exact isGap_of_skippable hblank hgap
      refine ⟨.gap gap :: .lexeme kind text :: ps, tail, by simp [Piece.text], by simp [htokens],
        ⟨hskip, hlexes, hfits⟩, ?_, by simp⟩
      intro last hmem
      cases tokens with
      | nil =>
          obtain rfl := hnil rfl
          obtain rfl : _ = last := by simpa using hmem
          simp [Piece.text, Nat.add_assoc]
      | cons t ts =>
          rw [hlast last (by simpa using hmem)]
          simp [Piece.text, Nat.add_assoc]

/-! ### Texts in any place -/

theorem mem_of_lookup {α β : Type} [BEq α] [LawfulBEq α] {l : List (α × β)} {a : α} {b : β}
    (h : l.lookup a = some b) : (a, b) ∈ l := by
  obtain ⟨l₁, l₂, rfl, -⟩ := List.lookup_eq_some_iff.1 h
  simp

/-- The kinds of the tokens of a text that ends with its last token. -/
def wholeKinds? (rules : Rules) (cs : List Char) : Option (List TokenKind) :=
  match tokenize rules cs with
  | .ok tokens =>
    if (tokens.getLast?.map (·.span.stop)).getD 0 = byteLength cs then
      some (tokens.map Token.kind)
    else none
  | .error _ => none

/-- A text that gives tokens of the given kinds wherever it stands before a separator. -/
def Gives (d : Dialect) (text : List Char) (kinds : List TokenKind) : Prop :=
  ∃ ps : Layout, ps.text = text ∧ ps.kinds = kinds ∧
    ∀ rest, Separated rest → Fits (rulesOf d) rest ps

/-- **What a text gives by itself it gives in any place.** -/
theorem gives_of_wholeKinds? {cs : List Char} {kinds : List TokenKind}
    (h : wholeKinds? (rulesOf d) cs = some kinds) : Gives d cs kinds := by
  unfold wholeKinds? at h
  cases ht : tokenize (rulesOf d) cs with
  | error e => simp [ht] at h
  | ok tokens =>
      simp only [ht, Option.ite_none_right_eq_some, Option.some.injEq] at h
      obtain ⟨hend, rfl⟩ := h
      obtain ⟨ps, tail, rfl, rfl, hfits, hlast, hnil⟩ := exists_layout ht
      have htail : tail = [] := by
        apply eq_nil_of_byteLength
        cases hts : (tokensAt 0 ps).getLast? with
        | none =>
            obtain rfl := hnil (List.getLast?_eq_none_iff.1 hts)
            simpa using hend.symm
        | some last =>
            have := hlast last hts
            simp only [hts, Option.map_some, Option.getD_some, byteLength_append] at hend
            omega
      subst htail
      exact ⟨ps, by simp, (map_kind_tokensAt 0 ps).symm, fun rest hr => hfits.exchange hr⟩

/-- A character that is a token of its own is read as this token before any text. -/
theorem lexes_punctuation {c : Char} {kind : TokenKind} (hc : punctuation.lookup c = some kind)
    (rest : List Char) : Lexes rules kind [c] rest := by
  have hmem : ∀ p ∈ punctuation, isBlank p.1 = false ∧ p.1 ≠ '-' ∧ p.1 ≠ '#' ∧ p.1 ≠ '/' := by
    decide
  obtain ⟨hblank, h1, h2, h3⟩ := hmem (c, kind) (mem_of_lookup hc)
  refine ⟨c, [], rfl, hblank, scanComment_of_ne _ h1 h2 h3, fun pos => ?_⟩
  simp [scanToken, hc]

namespace Gives

variable {a b : List Char} {ks ls : List TokenKind}

theorem nil : Gives d [] [] :=
  ⟨[], rfl, rfl, fun _ _ => trivial⟩

/-- A text of one token. -/
theorem single {kind : TokenKind} {text : List Char}
    (h : ∀ rest, Stops rest → Lexes (rulesOf d) kind text rest) : Gives d text [kind] :=
  ⟨[.lexeme kind text], by simp [Piece.text], rfl,
    fun rest hr => ⟨h rest hr.stops, trivial⟩⟩

/-- Texts follow each other where the second one starts with a separator. -/
theorem append (ha : Gives d a ks) (hb : Gives d b ls) (hsep : Separated b) :
    Gives d (a ++ b) (ks ++ ls) := by
  obtain ⟨ps, rfl, rfl, hps⟩ := ha
  obtain ⟨qs, rfl, rfl, hqs⟩ := hb
  refine ⟨ps ++ qs, by simp, by simp, fun rest hr => ?_⟩
  rw [fits_append]
  refine ⟨hps _ ?_, hqs rest hr⟩
  cases hq : Layout.text qs with
  | nil => exact hr
  | cons c r =>
      rw [hq, separated_cons] at hsep
      exact separated_cons.2 hsep

/-- A blank before a text. -/
theorem blank {c : Char} (hc : isBlank c) (hb : Gives d b ls) : Gives d (c :: b) ls := by
  obtain ⟨qs, rfl, rfl, hqs⟩ := hb
  refine ⟨.gap [c] :: qs, rfl, rfl, fun rest hr => ⟨?_, hqs rest hr⟩⟩
  exact IsGap.blank hc fun _ _ => rfl

/-- A character that is a token of its own before a text. -/
theorem punct {c : Char} {kind : TokenKind} (hc : punctuation.lookup c = some kind)
    (hb : Gives d b ls) : Gives d (c :: b) (kind :: ls) := by
  obtain ⟨qs, rfl, rfl, hqs⟩ := hb
  exact ⟨.lexeme kind [c] :: qs, rfl, rfl, fun rest hr => ⟨lexes_punctuation hc _, hqs rest hr⟩⟩

/-- A text after another one and a space. -/
theorem spaced (ha : Gives d a ks) (hb : Gives d b ls) : Gives d (a ++ ' ' :: b) (ks ++ ls) :=
  ha.append (hb.blank (by decide)) (separated_cons.2 (by decide))

/-- A bare word. -/
theorem word (d : Dialect) {w : List Char} (h : isBareWord w) :
    Gives d w [.word (String.ofList w)] :=
  single fun _ hr => lexes_word d h hr

/-- The tokens of a text. -/
theorem tokenize (ha : Gives d a ks) :
    ∃ tokens, tokenize (rulesOf d) a = .ok tokens ∧ tokens.map Token.kind = ks := by
  obtain ⟨ps, rfl, rfl, hps⟩ := ha
  exact ⟨_, tokenize_layout (hps [] separated_nil), map_kind_tokensAt 0 ps⟩

end Gives

/-- Texts with the same separator between each two. -/
theorem gives_intercalate (sep : List Char) (between : List TokenKind) {texts : List (List Char)}
    {kss : List (List TokenKind)} (hsep : Separated sep) (hne : sep ≠ [])
    (hbetween : ∀ {text ks}, Gives d text ks → Gives d (sep ++ text) (between ++ ks))
    (h : List.Forall₂ (Gives d) texts kss) :
    Gives d (sep.intercalate texts) (between.intercalate kss) := by
  have start : ∀ text, Separated (sep ++ text) := by
    intro text
    obtain ⟨c, r, rfl⟩ := List.exists_cons_of_ne_nil hne
    exact separated_cons.2 (separated_cons.1 hsep)
  induction h with
  | nil => exact .nil
  | @cons text ks texts kss htext hrest ih =>
      cases hrest with
      | nil =>
          rw [List.intercalate_singleton, List.intercalate_singleton]
          exact htext
      | cons _ _ =>
          rw [List.intercalate_cons_cons, List.intercalate_cons_cons, List.append_assoc,
            List.append_assoc]
          exact htext.append (hbetween ih) (start _)

end Schemata.Sql
