import Schemata.Proofs.Sql.Coverage

/-! # Where reading tokens fails

Reading fails at a comment, a literal or a quoted identifier that is not closed.  What stands before it
is laid out in tokens (`failsAt_of_tokensFrom`), and it is read when the source is cut at the fault
(`tokenize_before_fault`). -/

namespace Schemata.Sql

open Schemata.Text Layout

variable {d : Dialect} {rules : Rules} {pos : Nat} {source cs r : List Char} {e : LexError} {c : Char}

/-! ### Faults -/

/-- Where the fault of a source from byte `pos` on is: after the tokens and gaps of a layout, at a text
that is not empty.  The fault of a literal with an `E` before its quote is at the quote. -/
def FailsAt (rules : Rules) (pos : Nat) (source : List Char) (e : LexError) : Prop :=
  ∃ ps before rest, source = text ps ++ (before ++ rest) ∧ Fits rules (before ++ rest) ps ∧
    rest ≠ [] ∧ (before = [] ∨ before = ['e'] ∨ before = ['E']) ∧
    e.offset = pos + byteLength (text ps) + byteLength before

theorem offset_quotedToken {opening : List Char} {fault : LexFault} {of : String → TokenKind}
    {read : Option (Scanned (List Char))} (h : quotedToken opening fault pos of read = .error e) :
    e.offset = pos := by
  cases read with
  | none =>
      obtain rfl := Except.error.inj h
      rfl
  | some s => simp [quotedToken] at h

/-- A token that is not closed starts at the fault, but for the letter of an escape literal. -/
theorem offset_scanToken (h : scanToken rules pos c r = .error e) :
    e.offset = pos ∨ (c = 'e' ∨ c = 'E') ∧ r ≠ [] ∧ e.offset = pos + 1 := by
  unfold scanToken at h
  split at h
  · simp at h
  · split at h
    · simp at h
    · split at h
      · exact .inl (offset_quotedToken h)
      · split at h
        · split at h
          · simp at h
          · simp at h
          · obtain rfl := Except.error.inj h
            exact .inl rfl
        · split at h
          · exact .inl (offset_quotedToken h)
          · split at h
            · rename_i hescape
              refine .inr ⟨hescape.2.1, ?_, offset_quotedToken h⟩
              rintro rfl
              simp at hescape
            · simp at h

/-- A comment that is not closed comes after what can be skipped. -/
theorem skippable_of_error (h : skipGap rules pos cs = .error e) :
    ∃ gap c r, cs = gap ++ c :: r ∧ isBlank c = false ∧ e.offset = pos + byteLength gap ∧
      Skippable rules.hashComments rules.nestedComments (c :: r) gap := by
  fun_induction skipGap rules pos cs with
  | case1 => simp at h
  | case2 pos c cs hc ih =>
      obtain ⟨gap, c', r, rfl, hblank, hoffset, hgap⟩ := ih h
      exact ⟨c :: gap, c', r, rfl, hblank, by rw [hoffset, byteLength_cons, Nat.add_assoc],
        hgap.blank hc⟩
  | case3 pos c cs _ s hs ih =>
      obtain ⟨gap, c', r, hrest, hblank, hoffset, hgap⟩ := ih h
      obtain ⟨hcs, hcomment⟩ := scanComment_iff.1 hs
      rw [hrest] at hcs hcomment
      exact ⟨s.text ++ gap, c', r, by rw [hcs, List.append_assoc], hblank,
        by rw [hoffset, byteLength_append, Nat.add_assoc], hgap.comment hcomment⟩
  | case4 => simp at h
  | case5 pos c cs hc fault =>
      obtain rfl := Except.error.inj h
      exact ⟨[], c, cs, rfl, by simpa using hc, rfl, .nil⟩

/-- What can be skipped comes before the fault. -/
theorem FailsAt.gap {gap : List Char} (hgap : IsGap rules gap)
    (h : FailsAt rules (pos + byteLength gap) cs e) : FailsAt rules pos (gap ++ cs) e := by
  obtain ⟨ps, before, rest, rfl, hfits, hrest, hbefore, hoffset⟩ := h
  refine ⟨.gap gap :: ps, before, rest, by simp [Piece.text], ⟨hgap, hfits⟩, hrest, hbefore, ?_⟩
  rw [hoffset, text_cons, Piece.text, byteLength_append, ← Nat.add_assoc]

/-- A token comes before the fault. -/
theorem FailsAt.lexeme {kind : TokenKind} {w : List Char} (hw : Lexes rules kind w cs)
    (h : FailsAt rules (pos + byteLength w) cs e) : FailsAt rules pos (w ++ cs) e := by
  obtain ⟨ps, before, rest, rfl, hfits, hrest, hbefore, hoffset⟩ := h
  refine ⟨.lexeme kind w :: ps, before, rest, by simp [Piece.text], ⟨hw, hfits⟩, hrest, hbefore, ?_⟩
  rw [hoffset, text_cons, Piece.text, byteLength_append, ← Nat.add_assoc]

/-- The fault is at the front. -/
theorem failsAt_front (h : e.offset = pos) : FailsAt rules pos (c :: r) e :=
  ⟨[], [], c :: r, rfl, trivial, by simp, .inl rfl, h⟩

/-- **Every fault has its place.** -/
theorem failsAt_of_tokensFrom (h : tokensFrom rules pos cs = .error e) : FailsAt rules pos cs e := by
  fun_induction tokensFrom rules pos cs with
  | case1 pos cs e' hgap =>
      obtain rfl := Except.error.inj h
      obtain ⟨gap, c, r, rfl, hblank, hoffset, hskip⟩ := skippable_of_error hgap
      exact .gap (isGap_of_skippable hblank hskip) (failsAt_front hoffset)
  | case2 => simp at h
  | case3 pos cs start c r hgap e' hscan =>
      obtain rfl := Except.error.inj h
      obtain ⟨gap, rfl, rfl, hskip⟩ := skippable_of_skipGap hgap
      refine .gap (isGap_of_skippable (skipGap_ok hgap).1 hskip) ?_
      rcases offset_scanToken hscan with hoffset | ⟨hc, hr, hoffset⟩
      · exact failsAt_front hoffset
      · refine ⟨[], [c], r, rfl, trivial, hr, ?_, ?_⟩
        · rcases hc with rfl | rfl <;> simp
        · rcases hc with rfl | rfl <;> exact hoffset
  | case4 pos cs start c r hgap s hscan stop e' hrest ih =>
      obtain rfl := Except.error.inj h
      obtain ⟨gap, rfl, rfl, hskip⟩ := skippable_of_skipGap hgap
      obtain ⟨hblank, hcomment⟩ := skipGap_ok hgap
      obtain ⟨hne, happ⟩ := reads_scanToken hscan
      obtain ⟨kind, w, rest⟩ := s
      obtain ⟨c', w, rfl⟩ := List.exists_cons_of_ne_nil hne
      obtain ⟨rfl, rfl⟩ : c' = c ∧ w ++ rest = r := List.cons.inj happ
      exact .gap (isGap_of_skippable hblank hskip)
        (.lexeme ⟨c', w, rfl, hblank, hcomment, fun _ => scanToken_move hscan⟩ (ih hrest))
  | case5 => simp at h

/-! ### What comes before a fault -/

/-- The layout of the source before the fault. -/
theorem FailsAt.exists_cut (h : FailsAt (rulesOf d) 0 source e) :
    ∃ ps rest, source = text ps ++ rest ∧ rest ≠ [] ∧ e.offset = byteLength (text ps) ∧
      Fits (rulesOf d) [] ps := by
  obtain ⟨ps, before, rest, rfl, hfits, hrest, hbefore, hoffset⟩ := h
  rw [Nat.zero_add] at hoffset
  have hcut := hfits.exchange_after separated_nil
  have letter : ∀ c : Char, isBareWord [c] → before = [c] → ∃ ps' rest',
      text ps ++ (before ++ rest) = text ps' ++ rest' ∧ rest' ≠ [] ∧
        e.offset = byteLength (text ps') ∧ Fits (rulesOf d) [] ps' := by
    rintro c hc rfl
    have hword : Fits (rulesOf d) [] [.lexeme (.word (String.ofList [c])) [c]] :=
      ⟨lexes_word d hc stops_nil, trivial⟩
    have hall : Fits (rulesOf d) [] (ps ++ [.lexeme (.word (String.ofList [c])) [c]]) :=
      fits_append.2 ⟨hcut, hword⟩
    refine ⟨_, rest, by simp [Piece.text], hrest, ?_, hall⟩
    rw [hoffset, text_append, byteLength_append]
    rfl
  rcases hbefore with rfl | rfl | rfl
  · exact ⟨ps, rest, rfl, hrest, hoffset, by simpa using hcut⟩
  · exact letter 'e' (by decide) rfl
  · exact letter 'E' (by decide) rfl

/-- **A fault stands inside the source, and what comes before it can be read.** -/
theorem tokenize_before_fault (h : tokenize (rulesOf d) source = .error e) :
    IsBoundary source e.offset ∧ e.offset < byteLength source ∧
      ∃ tokens, tokenize (rulesOf d) (takeBytes e.offset source) = .ok tokens := by
  obtain ⟨ps, rest, rfl, hrest, hoffset, hfits⟩ := (failsAt_of_tokensFrom h).exists_cut
  rw [hoffset]
  refine ⟨⟨text ps, rest, rfl, rfl⟩, ?_, tokensAt 0 ps, ?_⟩
  · have : byteLength rest ≠ 0 := fun h0 => hrest (eq_nil_of_byteLength h0)
    rw [byteLength_append]
    omega
  · rw [takeBytes_append]
    exact tokenize_layout hfits

end Schemata.Sql
