import Schemata.Proofs.Sql.Ends

/-! # Texts and their places

A text that stands somewhere in a source has tokens there (`Stands`), which fall apart where the text
does (`Stands.split`).  The spans of tokens say where their texts stand: the text of one token is cut
out of the source by its span (`Covers.exists_cuts`), and a text that begins and ends with a token by the
spans of these two (`Stands.sourceText_eq`).  Conversely every run of tokens has such a text
(`exists_fills`). -/

namespace Schemata.Text

/-! ### Cutting -/

theorem dropBytes_append (a b : List Char) : dropBytes (byteLength a) (a ++ b) = b := by
  induction a with
  | nil => cases b <;> rfl
  | cons c a ih =>
      obtain ⟨n, hn⟩ : ∃ n, byteLength (c :: a) = n + 1 := by
        have := c.utf8Size_pos
        exact ⟨byteLength (c :: a) - 1, by rw [byteLength_cons]; omega⟩
      have hrest : n + 1 - c.utf8Size = byteLength a := by
        rw [← hn, byteLength_cons]
        omega
      rw [hn, List.cons_append, dropBytes, hrest]
      exact ih

theorem takeBytes_append (a b : List Char) : takeBytes (byteLength a) (a ++ b) = a := by
  induction a with
  | nil =>
      cases b with
      | nil => rfl
      | cons c b =>
          have := c.utf8Size_pos
          rw [byteLength_nil, List.nil_append, takeBytes, if_neg (by omega)]
  | cons c a ih =>
      rw [byteLength_cons, List.cons_append, takeBytes, if_pos (by omega), Nat.add_sub_cancel_left, ih]

/-- The bytes of a text are cut out where the text stands. -/
theorem slice_append (pre text post : List Char) :
    slice (pre ++ text ++ post) (byteLength pre) (byteLength pre + byteLength text) = text := by
  rw [slice, List.append_assoc, dropBytes_append, Nat.add_sub_cancel_left, takeBytes_append]

end Schemata.Text

namespace Schemata.Sql

open Schemata.Text Layout

variable {rules : Rules} {d : Dialect} {pos : Nat} {source pre a b : List Char}
  {t : Token} {ts us : List Token} {ks ls : List TokenKind}

/-! ### Spans -/

/-- A span cuts the text `w` out of a source that starts at byte `pos`, and `rest` is what follows. -/
def Cuts (pos : Nat) (source : List Char) (span : Span) (w rest : List Char) : Prop :=
  ∃ before, source = before ++ (w ++ rest) ∧
    span = ⟨pos + byteLength before, pos + byteLength before + byteLength w⟩

/-- The start of a source is cut off. -/
theorem cuts_start (pos : Nat) (w rest : List Char) :
    Cuts pos (w ++ rest) ⟨pos, pos + byteLength w⟩ w rest :=
  ⟨[], rfl, rfl⟩

/-- What is cut out of the end of a source is cut out of the source. -/
theorem Cuts.after {span : Span} {w rest : List Char}
    (h : Cuts (pos + byteLength pre) source span w rest) :
    Cuts pos (pre ++ source) span w rest := by
  obtain ⟨before, rfl, rfl⟩ := h
  refine ⟨pre ++ before, (List.append_assoc _ _ _).symm, ?_⟩
  rw [byteLength_append, Nat.add_assoc pos]

theorem Cuts.slice_eq {span : Span} {w rest : List Char} (h : Cuts 0 source span w rest) :
    slice source span.start span.stop = w := by
  obtain ⟨before, rfl, rfl⟩ := h
  rw [← List.append_assoc]
  simpa using slice_append before w rest

/-- Each token is read from the text that its span cuts out. -/
theorem Covers.exists_cuts {tokens : List Token} (h : Covers rules pos source tokens) :
    ∀ t ∈ tokens, ∃ w rest, Cuts pos source t.span w rest ∧ Lexes rules t.kind w rest := by
  induction h with
  | done => simp
  | @token pos gap w rest kind tokens hgap hlexes hrest ih =>
      intro t ht
      rcases List.mem_cons.1 ht with rfl | ht
      · exact ⟨w, rest, (cuts_start _ w rest).after, hlexes⟩
      · obtain ⟨w', rest', hcuts, hlexes'⟩ := ih t ht
        exact ⟨w', rest', hcuts.after.after, hlexes'⟩

/-- **The text of a token** is cut out of the source by its span, and is read as this token. -/
theorem exists_lexeme {tokens : List Token} (h : tokenize rules source = .ok tokens)
    (ht : t ∈ tokens) :
    ∃ w rest, slice source t.span.start t.span.stop = w ∧ Lexes rules t.kind w rest := by
  obtain ⟨w, rest, hcuts, hlexes⟩ := (covers_of_tokensFrom h).exists_cuts t ht
  exact ⟨w, rest, hcuts.slice_eq, hlexes⟩

/-! ### Tokens of layouts -/

namespace Layout

theorem tokensAt_append (pos : Nat) (ps qs : Layout) :
    tokensAt pos (ps ++ qs) = tokensAt pos ps ++ tokensAt (pos + byteLength (text ps)) qs := by
  induction ps generalizing pos with
  | nil => rfl
  | cons p ps ih => cases p <;> simp [ih, Piece.text, Nat.add_assoc]

/-- A layout falls apart where its tokens do. -/
theorem tokensAt_eq_append {ps : Layout} (h : tokensAt pos ps = ts ++ us) :
    ∃ qs rs, ps = qs ++ rs ∧ tokensAt pos qs = ts ∧
      tokensAt (pos + byteLength (text qs)) rs = us := by
  induction ps generalizing pos ts with
  | nil =>
      obtain ⟨rfl, rfl⟩ := List.append_eq_nil_iff.1 h.symm
      exact ⟨[], [], rfl, rfl, rfl⟩
  | cons p ps ih =>
      cases p with
      | gap g =>
          obtain ⟨qs, rs, rfl, rfl, rfl⟩ := ih h
          refine ⟨.gap g :: qs, rs, rfl, rfl, ?_⟩
          rw [text_cons, Piece.text, byteLength_append, Nat.add_assoc]
      | lexeme kind w =>
          cases ts with
          | nil => exact ⟨[], .lexeme kind w :: ps, rfl, rfl, h⟩
          | cons t ts =>
              obtain ⟨rfl, hrest⟩ := List.cons.inj h
              obtain ⟨qs, rs, rfl, rfl, rfl⟩ := ih hrest
              refine ⟨.lexeme kind w :: qs, rs, rfl, rfl, ?_⟩
              rw [text_cons, Piece.text, byteLength_append, Nat.add_assoc]

/-- The first token stands after gaps. -/
theorem tokensAt_eq_cons {ps : Layout} (h : tokensAt pos ps = t :: ts) :
    ∃ gs w rs, ps = gs ++ .lexeme t.kind w :: rs ∧ kinds gs = [] ∧
      t.span = ⟨pos + byteLength (text gs), pos + byteLength (text gs) + byteLength w⟩ ∧
      tokensAt (pos + byteLength (text gs) + byteLength w) rs = ts := by
  induction ps generalizing pos with
  | nil => simp at h
  | cons p ps ih =>
      cases p with
      | gap g =>
          obtain ⟨gs, w, rs, rfl, hgs, hspan, hrest⟩ := ih h
          refine ⟨.gap g :: gs, w, rs, rfl, hgs, ?_⟩
          rw [text_cons, Piece.text, byteLength_append, ← Nat.add_assoc]
          exact ⟨hspan, hrest⟩
      | lexeme kind w =>
          obtain ⟨rfl, hrest⟩ := List.cons.inj h
          exact ⟨[], w, ps, rfl, rfl, rfl, hrest⟩

theorem tokensAt_of_kinds {ps : Layout} (h : kinds ps = []) (pos : Nat) : tokensAt pos ps = [] := by
  rw [← List.map_eq_nil_iff (f := Token.kind), map_kind_tokensAt, h]

/-- The last token stands before gaps. -/
theorem tokensAt_eq_concat {ps : Layout} (h : tokensAt pos ps = ts ++ [t]) :
    ∃ qs w gs, ps = qs ++ .lexeme t.kind w :: gs ∧ kinds gs = [] ∧ tokensAt pos qs = ts := by
  obtain ⟨as, bs, rfl, hts, hbs⟩ := tokensAt_eq_append h
  obtain ⟨gs, w, rs, rfl, hgs, -, hrs⟩ := tokensAt_eq_cons hbs
  refine ⟨as ++ gs, w, rs, by simp, ?_, ?_⟩
  · rw [← map_kind_tokensAt, hrs, List.map_nil]
  · rw [tokensAt_append, hts, tokensAt_of_kinds hgs, List.append_nil]

/-- A layout that begins and ends with a token. -/
def Bounded (ps : Layout) : Prop :=
  (∃ kind w rs, ps = .lexeme kind w :: rs) ∧ ∃ qs kind w, ps = qs ++ [.lexeme kind w]

theorem bounded_single (kind : TokenKind) (w : List Char) : Bounded [.lexeme kind w] :=
  ⟨⟨kind, w, [], rfl⟩, [], kind, w, rfl⟩

/-- The ends of a layout matter only. -/
theorem Bounded.append {ps qs rs : Layout} (h : Bounded ps) (hrs : Bounded rs) :
    Bounded (ps ++ (qs ++ rs)) := by
  obtain ⟨⟨kind, w, ps', rfl⟩, -⟩ := h
  obtain ⟨-, rs', kind', w', rfl⟩ := hrs
  exact ⟨⟨kind, w, ps' ++ (qs ++ (rs' ++ [.lexeme kind' w'])), by simp⟩,
    .lexeme kind w :: ps' ++ (qs ++ rs'), kind', w', by simp⟩

theorem start_tokensAt {ps : Layout} (h : Bounded ps) :
    ∀ t ∈ (tokensAt pos ps).head?, t.span.start = pos := by
  obtain ⟨⟨kind, w, rs, rfl⟩, -⟩ := h
  simp

theorem stop_tokensAt {ps : Layout} (h : Bounded ps) :
    ∀ t ∈ (tokensAt pos ps).getLast?, t.span.stop = pos + byteLength (text ps) := by
  obtain ⟨-, qs, kind, w, rfl⟩ := h
  simp [tokensAt_append, Piece.text, Nat.add_assoc]

theorem tokensAt_ne_nil {ps : Layout} (h : Bounded ps) : tokensAt pos ps ≠ [] := by
  obtain ⟨⟨kind, w, rs, rfl⟩, -⟩ := h
  simp

end Layout

/-- Nothing is trimmed from a text that begins and ends with a token. -/
theorem trimmed_text {ps : Layout} (h : Bounded ps) {rest : List Char} (hfits : Fits rules rest ps) :
    trimmed (text ps) = text ps := by
  apply trimmed_eq_self
  · obtain ⟨⟨kind, w, rs, rfl⟩, -⟩ := h
    obtain ⟨hne, hhead⟩ := hfits.1.head
    obtain ⟨c, w, rfl⟩ := List.exists_cons_of_ne_nil hne
    exact hhead
  · obtain ⟨-, qs, kind, w, rfl⟩ := h
    have hlexes := (fits_append.1 hfits).2.1
    have htext : text (qs ++ [.lexeme kind w]) = text qs ++ w := by simp [Piece.text]
    have hlast := hlexes.last
    rw [List.getLast?_eq_some_getLast hlexes.head.1] at hlast
    rw [htext, List.getLast?_append, List.getLast?_eq_some_getLast hlexes.head.1, Option.some_or]
    exact hlast

/-- **The text of tokens** that begin and end a layout in the source. -/
theorem sourceText_tokensAt (pre post : List Char) {ps : Layout} (h : Bounded ps) {rest : List Char}
    (hfits : Fits rules rest ps) :
    sourceText (pre ++ text ps ++ post) (tokensAt (byteLength pre) ps) = String.ofList (text ps) := by
  obtain ⟨first, hfirst⟩ : ∃ first, (tokensAt (byteLength pre) ps).head? = some first :=
    ⟨_, List.head?_eq_some_head (tokensAt_ne_nil h)⟩
  obtain ⟨last, hlast⟩ : ∃ last, (tokensAt (byteLength pre) ps).getLast? = some last :=
    ⟨_, List.getLast?_eq_some_getLast (tokensAt_ne_nil h)⟩
  unfold sourceText
  rw [hfirst, hlast]
  dsimp only
  rw [start_tokensAt h first hfirst, stop_tokensAt h last hlast, slice_append, trimmed_text h hfits]

/-- **A run of tokens is laid out in the source** from the first of them to the last. -/
theorem exists_bounded {tokens : List Token} (h : tokenize rules source = .ok tokens)
    (hrun : ts <:+: tokens) (hne : ts ≠ []) :
    ∃ pre ps post, source = pre ++ text ps ++ post ∧ Bounded ps ∧ Fits rules post ps ∧
      tokensAt (byteLength pre) ps = ts := by
  obtain ⟨ps, tail, rfl, hps, hfits, -⟩ := exists_layout h
  obtain ⟨before, after, rfl⟩ := hrun
  rw [List.append_assoc] at hps
  obtain ⟨qs, rs, rfl, -, hrs⟩ := tokensAt_eq_append hps
  obtain ⟨ms, us, rfl, hms, -⟩ := tokensAt_eq_append hrs
  -- the gaps at both ends are left out
  obtain ⟨t, ts', rfl⟩ := List.exists_cons_of_ne_nil hne
  obtain ⟨gs, w, ms, rfl, hgs, -⟩ := tokensAt_eq_cons hms
  rw [tokensAt_append, tokensAt_of_kinds hgs, List.nil_append] at hms
  obtain ⟨init, last, hlast⟩ : ∃ init last, t :: ts' = init ++ [last] :=
    ⟨_, _, (List.dropLast_concat_getLast (by simp)).symm⟩
  rw [hlast] at hms
  obtain ⟨as, w', gs', hsplit, hgs', has⟩ := tokensAt_eq_concat hms
  have hbounded : Bounded (as ++ [.lexeme last.kind w']) := by
    refine ⟨?_, as, last.kind, w', rfl⟩
    cases as with
    | nil => exact ⟨_, _, _, rfl⟩
    | cons a as => exact ⟨t.kind, w, _, by rw [List.cons_append, (List.cons.inj hsplit).1]⟩
  rw [hsplit, List.append_cons as, tokensAt_append, tokensAt_of_kinds hgs', List.append_nil] at hms
  rw [hsplit, List.append_cons as] at hfits ⊢
  have hmiddle := (fits_append.1 (fits_append.1 (fits_append.1 hfits).2).1).2
  have hplace : 0 + byteLength (text qs) + byteLength (text gs) = byteLength (text qs ++ text gs) := by
    rw [byteLength_append, Nat.zero_add]
  rw [hplace] at hms
  refine ⟨text qs ++ text gs, as ++ [.lexeme last.kind w'], text gs' ++ (text us ++ tail),
    by simp [Piece.text], hbounded, (fits_append.1 hmiddle).1, ?_⟩
  rw [hms, hlast]

/-! ### Texts that begin and end with tokens -/

/-- A text that tokens of the given kinds fill from its first character to its last, wherever it
stands before a separator. -/
def Fills (d : Dialect) (text : List Char) (kinds : List TokenKind) : Prop :=
  ∃ ps : Layout, ps.text = text ∧ ps.kinds = kinds ∧ Bounded ps ∧
    ∀ rest, Separated rest → Fits (rulesOf d) rest ps

namespace Fills

theorem gives (h : Fills d a ks) : Gives d a ks := by
  obtain ⟨ps, htext, hkinds, -, hps⟩ := h
  exact ⟨ps, htext, hkinds, hps⟩

/-- Nothing is trimmed from a text that tokens fill. -/
theorem trimmed_eq (h : Fills d a ks) : trimmed a = a := by
  obtain ⟨ps, rfl, -, hbounded, hps⟩ := h
  exact trimmed_text hbounded (hps [] separated_nil)

/-- A text of one token. -/
theorem single {kind : TokenKind} (h : ∀ rest, Stops rest → Lexes (rulesOf d) kind a rest) :
    Fills d a [kind] :=
  ⟨[.lexeme kind a], by simp [Piece.text], rfl, bounded_single kind a,
    fun rest hr => ⟨h rest hr.stops, trivial⟩⟩

/-- A text that is one token by itself is one before a separator. -/
theorem of_lexes {kind : TokenKind} (h : Lexes (rulesOf d) kind a []) : Fills d a [kind] := by
  have hfits : Fits (rulesOf d) [] [.lexeme kind a] := ⟨h, trivial⟩
  exact ⟨[.lexeme kind a], by simp [Piece.text], rfl, bounded_single kind a,
    fun rest hr => hfits.exchange hr⟩

/-- Texts follow each other where the second one starts with a separator. -/
theorem append (ha : Fills d a ks) (hb : Fills d b ls) (hsep : Separated b) :
    Fills d (a ++ b) (ks ++ ls) := by
  obtain ⟨ps, rfl, rfl, hboundedp, hps⟩ := ha
  obtain ⟨qs, rfl, rfl, hboundedq, hqs⟩ := hb
  have hne : text qs ≠ [] := by
    obtain ⟨⟨kind, w, rs, rfl⟩, -⟩ := hboundedq
    obtain ⟨c, t, rfl, -⟩ := (hqs [] separated_nil).1
    simp [Piece.text]
  have hbounded : Bounded (ps ++ ([] ++ qs)) := hboundedp.append hboundedq
  refine ⟨ps ++ qs, by simp, by simp, hbounded, fun rest hr => ?_⟩
  rw [fits_append]
  obtain ⟨c, r, hcr⟩ := List.exists_cons_of_ne_nil hne
  refine ⟨hps _ ?_, hqs rest hr⟩
  rw [hcr, List.cons_append, separated_cons]
  rw [hcr, separated_cons] at hsep
  exact hsep

/-- A text in parentheses. -/
theorem enclose (h : Gives d b ls) :
    Fills d ('(' :: (b ++ [')'])) (.lparen :: (ls ++ [.rparen])) := by
  obtain ⟨qs, rfl, rfl, hqs⟩ := h
  refine ⟨.lexeme .lparen ['('] :: (qs ++ [.lexeme .rparen [')']]), by simp [Piece.text], by simp,
    (bounded_single .lparen ['(']).append (bounded_single .rparen [')']), fun rest hr => ?_⟩
  refine ⟨lexes_punctuation rfl _, fits_append.2 ⟨hqs _ ?_, lexes_punctuation rfl _, trivial⟩⟩
  exact separated_cons.2 (by decide)

end Fills

/-- **The text of a run of tokens** is filled by these tokens wherever it stands. -/
theorem exists_fills {tokens : List Token} (h : tokenize (rulesOf d) source = .ok tokens)
    (hrun : ts <:+: tokens) (hne : ts ≠ []) :
    Fills d (sourceText source ts).toList (ts.map Token.kind) := by
  obtain ⟨pre, ps, post, rfl, hbounded, hfits, rfl⟩ := exists_bounded h hrun hne
  rw [sourceText_tokensAt pre post hbounded hfits, String.toList_ofList, map_kind_tokensAt]
  exact ⟨ps, rfl, rfl, hbounded, fun rest hr => hfits.exchange hr⟩

/-! ### Standing texts -/

/-- A text stands in a source after `pre` and has these tokens there. -/
structure Stands (d : Dialect) (source pre text : List Char) (ts : List Token) : Prop where
  place : pre ++ text <+: source
  tokens : tokensFrom (rulesOf d) (byteLength pre) text = .ok ts

namespace Stands

/-- A source stands in itself. -/
theorem whole (h : tokenize (rulesOf d) source = .ok ts) : Stands d source [] source ts :=
  ⟨List.prefix_rfl, h⟩

/-- The tokens of a layout come first, and what follows it stands after it. -/
theorem layout {ps : Layout} (h : Stands d source pre (text ps ++ b) ts)
    (hps : Fits (rulesOf d) b ps) :
    ∃ us, ts = tokensAt (byteLength pre) ps ++ us ∧ Stands d source (pre ++ text ps) b us := by
  have hall := tokensFrom_layout (byteLength pre) hps
  rw [h.tokens, ← byteLength_append] at hall
  cases hrest : tokensFrom (rulesOf d) (byteLength (pre ++ text ps)) b with
  | error e =>
      rw [hrest] at hall
      cases hall
  | ok us =>
      rw [hrest] at hall
      exact ⟨us, Except.ok.inj hall, by simpa using h.place, hrest⟩

theorem nil (h : Stands d source pre [] ts) : ts = [] := by
  have := h.tokens
  rw [tokensFrom_nil] at this
  exact (Except.ok.inj this).symm

/-- The tokens of a text that is laid out in pieces. -/
theorem eq_tokensAt {ps : Layout} (h : Stands d source pre (text ps) ts)
    (hps : Fits (rulesOf d) [] ps) : ts = tokensAt (byteLength pre) ps := by
  rw [← List.append_nil (text ps)] at h
  obtain ⟨us, rfl, hus⟩ := h.layout hps
  rw [hus.nil, List.append_nil]

theorem kinds (h : Stands d source pre a ts) (ha : Gives d a ks) : ts.map Token.kind = ks := by
  obtain ⟨ps, rfl, rfl, hps⟩ := ha
  rw [h.eq_tokensAt (hps [] separated_nil)]
  exact map_kind_tokensAt _ ps

/-- The text of the tokens of a text that they fill. -/
theorem sourceText_eq (h : Stands d source pre a ts) (ha : Fills d a ks) :
    sourceText source ts = String.ofList a := by
  obtain ⟨ps, rfl, rfl, hbounded, hps⟩ := ha
  obtain ⟨post, hpost⟩ := h.place
  rw [h.eq_tokensAt (hps [] separated_nil), ← hpost]
  exact sourceText_tokensAt pre post hbounded (hps [] separated_nil)

/-- **The tokens of a text fall apart** where a separator follows. -/
theorem split (h : Stands d source pre (a ++ b) ts) (ha : Gives d a ks) (hb : Separated b) :
    ∃ ts₁ ts₂, ts = ts₁ ++ ts₂ ∧ Stands d source pre a ts₁ ∧ Stands d source (pre ++ a) b ts₂ := by
  obtain ⟨ps, rfl, rfl, hps⟩ := ha
  obtain ⟨us, rfl, hus⟩ := h.layout (hps b hb)
  have halone := tokensFrom_layout (byteLength pre) (hps [] separated_nil)
  rw [List.append_nil, tokensFrom_nil] at halone
  refine ⟨_, us, rfl, ⟨(List.prefix_append _ _).trans hus.place, halone.trans ?_⟩, hus⟩
  rw [Except.map, List.append_nil]

theorem blank {c : Char} (h : Stands d source pre (c :: b) ts) (hc : isBlank c) :
    Stands d source (pre ++ [c]) b ts := by
  have hgap : Fits (rulesOf d) b [.gap [c]] := ⟨IsGap.blank hc fun _ _ => rfl, trivial⟩
  have hlayout : Stands d source pre (text [.gap [c]] ++ b) ts := h
  obtain ⟨us, rfl, hus⟩ := hlayout.layout hgap
  exact hus

/-- A text after another one and a space. -/
theorem spaced (h : Stands d source pre (a ++ ' ' :: b) ts) (ha : Gives d a ks) :
    ∃ ts₁ ts₂, ts = ts₁ ++ ts₂ ∧ Stands d source pre a ts₁ ∧
      Stands d source (pre ++ a ++ [' ']) b ts₂ := by
  obtain ⟨ts₁, ts₂, rfl, h₁, h₂⟩ := h.split ha (separated_cons.2 (by decide))
  exact ⟨ts₁, ts₂, rfl, h₁, h₂.blank (by decide)⟩

/-- The token of a text of one token takes the whole text. -/
theorem single {kind : TokenKind} (h : Stands d source pre a ts)
    (ha : Lexes (rulesOf d) kind a []) :
    ts = [⟨kind, ⟨byteLength pre, byteLength pre + byteLength a⟩⟩] := by
  have htext : text [.lexeme kind a] = a := by simp [Piece.text]
  rw [← htext] at h
  exact h.eq_tokensAt ⟨ha, trivial⟩

/-- A character that is a token of its own before a text. -/
theorem punct {c : Char} {kind : TokenKind} (h : Stands d source pre (c :: b) ts)
    (hc : punctuation.lookup c = some kind) :
    ∃ us, ts = ⟨kind, ⟨byteLength pre, byteLength pre + c.utf8Size⟩⟩ :: us ∧
      Stands d source (pre ++ [c]) b us := by
  have hlayout : Stands d source pre (text [.lexeme kind [c]] ++ b) ts := h
  exact hlayout.layout ⟨lexes_punctuation hc b, trivial⟩

end Stands

end Schemata.Sql
