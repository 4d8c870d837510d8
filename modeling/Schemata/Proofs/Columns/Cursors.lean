import Schemata.Proofs.Sql.GuardedDefinitions

/-! # Cursors

A cursor is a place in some tokens, which operations move by counting.  What readers are given is what stands
from the place on, so an operation is described by what it leaves (`rest_advance`, `map_rest_eatWords?`,
`rest_eatGroup`, `rest_eatQualifiedName`).  No operation goes back or past the end (`Operation.moves`), so no
run of operations does (`Runs.moves`). -/

namespace Schemata.Sql

/-- A place in some tokens. -/
structure Cursor where
  tokens : List Token
  pos : Nat

namespace Cursor

variable {c d e : Cursor} {t : Token} {r : List Token} {words : List String} {kind : TokenKind}

/-! ### Operations -/

/-- The tokens from the place on. -/
def rest (c : Cursor) : List Token := c.tokens.drop c.pos

/-- The token that stands `n` places further. -/
def peekAt (c : Cursor) (n : Nat) : Option Token := c.tokens[c.pos + n]?

/-- The token at the place. -/
def peek (c : Cursor) : Option Token := c.peekAt 0

/-- The cursor `n` places further, whether anything is there or not. -/
def skip (c : Cursor) (n : Nat) : Cursor := { c with pos := c.pos + n }

/-- Passes over a token if there is one. -/
def advance (c : Cursor) : Cursor := if c.peek.isSome then c.skip 1 else c

/-- Whether keywords stand here, one after the other. -/
def startsWith (c : Cursor) : List String → Bool
  | [] => true
  | word :: words => c.peek.any (·.isKeyword word) && (c.skip 1).startsWith words

/-- Passes over keywords if all of them are here. -/
def eatWords? (words : List String) (c : Cursor) : Option Cursor :=
  if c.startsWith words then some (c.skip words.length) else none

/-- Passes over keywords if all of them are here, and else over nothing. -/
def eatWords (words : List String) (c : Cursor) : Cursor := (c.eatWords? words).getD c

/-- Whether a token of a kind is here. -/
def isAt (c : Cursor) (kind : TokenKind) : Bool := c.peek.any (·.kind == kind)

/-- Passes over a token of a kind. -/
def eat? (kind : TokenKind) (c : Cursor) : Option Cursor := if c.isAt kind then some (c.skip 1) else none

/-- Passes over a token of a kind if it is here, and else over nothing. -/
def eat (kind : TokenKind) (c : Cursor) : Cursor := (c.eat? kind).getD c

/-- Passes over a group in parentheses, which goes to the end if nothing closes it. -/
def eatGroup (c : Cursor) : Cursor :=
  if c.isAt .lparen then
    match matchingParen c.tokens c.pos with
    | some close => { c with pos := close + 1 }
    | none => { c with pos := c.tokens.length }
  else c

/-- Whether a point and a name are here. -/
def isAtName (c : Cursor) : Bool := c.isAt .dot && ((c.peekAt 1).bind Token.ident?).isSome

theorem pos_lt_of_peekAt {n : Nat} (h : (c.peekAt n).isSome) : c.pos + n < c.tokens.length := by
  obtain ⟨t, ht⟩ := Option.isSome_iff_exists.1 h
  exact (List.getElem?_eq_some_iff.1 ht).1

theorem peek_of_isAt (h : c.isAt kind) : c.peek.isSome := Option.isSome_of_any h

theorem peek_of_isAtName (h : c.isAtName) : c.peek.isSome ∧ (c.peekAt 1).isSome := by
  obtain ⟨hdot, hname⟩ := Bool.and_eq_true_iff.1 h
  exact ⟨peek_of_isAt hdot, Option.isSome_of_isSome_bind hname⟩

/-- Passes over the names joined by points. -/
def eatFurtherNames (c : Cursor) : Cursor := if c.isAtName then (c.skip 2).eatFurtherNames else c
termination_by c.tokens.length - c.pos
decreasing_by
  have := pos_lt_of_peekAt (peek_of_isAtName ‹_›).2
  dsimp only [skip]
  omega

/-- Passes over a qualified name. -/
def eatQualifiedName (c : Cursor) : Cursor :=
  if (c.peek.bind Token.ident?).isSome then (c.skip 1).eatFurtherNames else c

/-- An operation of cursors. -/
inductive Operation
  | advance
  | eatWords (words : List String)
  | eat (kind : TokenKind)
  | eatGroup
  | eatQualifiedName

/-- What an operation does. -/
def Operation.apply : Operation → Cursor → Cursor
  | .advance => Cursor.advance
  | .eatWords words => Cursor.eatWords words
  | .eat kind => Cursor.eat kind
  | .eatGroup => Cursor.eatGroup
  | .eatQualifiedName => Cursor.eatQualifiedName

/-! ### What operations leave -/

theorem peekAt_eq (c : Cursor) (n : Nat) : c.peekAt n = c.rest[n]? := List.getElem?_drop.symm

theorem peek_eq (c : Cursor) : c.peek = c.rest.head? := by
  rw [peek, peekAt_eq, List.head?_eq_getElem?]

theorem isAt_eq (c : Cursor) (kind : TokenKind) : c.isAt kind = c.rest.head?.any (·.kind == kind) := by
  rw [isAt, peek_eq]

@[simp] theorem rest_skip (c : Cursor) (n : Nat) : (c.skip n).rest = c.rest.drop n := by
  rw [rest, rest, List.drop_drop]
  rfl

@[simp] theorem rest_advance (c : Cursor) : c.advance.rest = c.rest.drop 1 := by
  rw [advance, peek_eq]
  cases h : c.rest <;> simp [h]

theorem startsWith_eq (c : Cursor) (words : List String) :
    c.startsWith words = (afterWords words c.rest).isSome := by
  induction words generalizing c with
  | nil => rfl
  | cons word words ih =>
      rw [startsWith, ih, rest_skip, peek_eq]
      cases h : c.rest with
      | nil => rfl
      | cons t r => cases hword : t.isKeyword word <;> simp [afterWords, hword]

theorem eq_drop_of_afterWords {s : List Token} (h : afterWords words r = some s) : s = r.drop words.length := by
  fun_induction afterWords words r with
  | case1 => exact (Option.some.inj h).symm
  | case2 => simp at h
  | case3 word words t r hword ih => exact ih h
  | case4 => simp at h

/-- Keywords that are passed over are those after which readers go on. -/
theorem map_rest_eatWords? (words : List String) (c : Cursor) :
    (c.eatWords? words).map rest = afterWords words c.rest := by
  rw [eatWords?, startsWith_eq]
  cases h : afterWords words c.rest with
  | none => rfl
  | some s => simp [eq_drop_of_afterWords h]

theorem rest_getD (o : Option Cursor) (c : Cursor) : (o.getD c).rest = (o.map rest).getD c.rest := by
  cases o <;> rfl

@[simp] theorem rest_eatWords (words : List String) (c : Cursor) :
    (c.eatWords words).rest = (afterWords words c.rest).getD c.rest := by
  rw [eatWords, rest_getD, map_rest_eatWords?]

@[simp] theorem rest_eat (kind : TokenKind) (c : Cursor) :
    (c.eat kind).rest = if c.rest.head?.any (·.kind == kind) then c.rest.drop 1 else c.rest := by
  rw [eat, eat?, ← isAt_eq]
  split <;> simp

/-- What stands at a cursor splits its tokens. -/
theorem exists_before (h : c.rest = t :: r) : ∃ before, c = ⟨before ++ t :: r, before.length⟩ := by
  obtain ⟨tokens, pos⟩ := c
  have hlt : pos < tokens.length := by
    by_contra hle
    rw [rest, List.drop_of_length_le (Nat.le_of_not_lt hle)] at h
    exact absurd h (by simp)
  refine ⟨tokens.take pos, ?_⟩
  rw [← h, rest, List.take_append_drop, List.length_take_of_le (Nat.le_of_lt hlt)]

theorem rest_mk (before r : List Token) (n : Nat) :
    (Cursor.mk (before ++ r) (before.length + n)).rest = r.drop n := by
  rw [rest, List.drop_length_add_append]

theorem exists_before_of_isAt (h : c.isAt kind) :
    ∃ before t r, t.kind = kind ∧ c = ⟨before ++ t :: r, before.length⟩ := by
  rw [isAt_eq] at h
  cases hrest : c.rest with
  | nil => simp [hrest] at h
  | cons t r =>
      obtain ⟨before, rfl⟩ := exists_before hrest
      exact ⟨before, t, r, by simpa [hrest] using h, rfl⟩

/-- The place after a group. -/
theorem eatGroup_mk (ht : t.kind = .lparen) (before r : List Token) :
    eatGroup ⟨before ++ t :: r, before.length⟩ =
      ⟨before ++ t :: r, before.length + ((closingFrom 1 r).elim (r.length + 1) (· + 2))⟩ := by
  have hat : isAt ⟨before ++ t :: r, before.length⟩ .lparen := by
    rw [isAt_eq, ← Nat.add_zero before.length, rest_mk]
    simp [ht]
  rw [eatGroup, if_pos hat, Guarded.matchingParen_append ht]
  cases closingFrom 1 r with
  | none => simp
  | some close => rfl

theorem eatGroup_of_not_isAt (h : c.isAt .lparen = false) : c.eatGroup = c := if_neg (by simp [h])

@[simp] theorem rest_eatGroup (c : Cursor) : c.eatGroup.rest = skipGroup c.rest := by
  cases hat : c.isAt .lparen with
  | true =>
      obtain ⟨before, t, r, ht, rfl⟩ := exists_before_of_isAt hat
      have hrest : rest ⟨before ++ t :: r, before.length⟩ = t :: r := rest_mk before (t :: r) 0
      rw [eatGroup_mk ht, rest_mk, hrest, skipGroup, parenGroup?, if_pos ht]
      cases closingFrom 1 r <;> simp
  | false =>
      rw [eatGroup_of_not_isAt hat]
      rw [isAt_eq] at hat
      cases hrest : c.rest with
      | nil => rfl
      | cons t r =>
          have ht : t.kind ≠ .lparen := by simpa [hrest] using hat
          rw [skipGroup, parenGroup?, if_neg ht]

theorem snd_furtherNames (tokens : List Token) : (furtherNames tokens).2 =
    if tokens.head?.any (·.kind == .dot) && (tokens[1]?.bind Token.ident?).isSome then
      (furtherNames (tokens.drop 2)).2
    else tokens := by
  match tokens with
  | [] => rfl
  | [p] => simp [furtherNames]
  | p :: t :: r =>
      rw [furtherNames]
      cases hname : t.ident? with
      | none => simp [hname]
      | some name => by_cases hp : p.kind = .dot <;> simp [hname, hp]

@[simp] theorem rest_eatFurtherNames (c : Cursor) : c.eatFurtherNames.rest = (furtherNames c.rest).2 := by
  fun_induction eatFurtherNames c with
  | case1 c h ih =>
      rw [isAtName, isAt_eq, peekAt_eq] at h
      rw [ih, rest_skip, snd_furtherNames c.rest, if_pos h]
  | case2 c h =>
      rw [isAtName, isAt_eq, peekAt_eq] at h
      rw [snd_furtherNames, if_neg h]

@[simp] theorem rest_eatQualifiedName (c : Cursor) :
    c.eatQualifiedName.rest = ((qualifiedName? c.rest).map Prod.snd).getD c.rest := by
  rw [eatQualifiedName, peek_eq]
  cases h : c.rest with
  | nil => simp [h, qualifiedName?]
  | cons t r => cases hname : t.ident? <;> simp [h, hname, qualifiedName?]

/-! ### Moves -/

/-- A cursor stands further on in the same tokens, and not past their end unless it was there before. -/
structure Moves (c d : Cursor) : Prop where
  tokens : d.tokens = c.tokens
  forward : c.pos ≤ d.pos
  inside : c.pos ≤ c.tokens.length → d.pos ≤ c.tokens.length

theorem Moves.refl (c : Cursor) : Moves c c := ⟨rfl, Nat.le_refl _, id⟩

theorem Moves.trans (h : Moves c d) (h' : Moves d e) : Moves c e where
  tokens := h'.tokens.trans h.tokens
  forward := Nat.le_trans h.forward h'.forward
  inside hc := h.tokens ▸ h'.inside (h.tokens ▸ h.inside hc)

theorem pos_lt_of_peek (h : c.peek.isSome) : c.pos < c.tokens.length := pos_lt_of_peekAt h

theorem advance_eq (h : c.peek.isSome) : c.advance = c.skip 1 := if_pos h

theorem moves_skip {n : Nat} (h : c.pos ≤ c.tokens.length → c.pos + n ≤ c.tokens.length) :
    Moves c (c.skip n) :=
  ⟨rfl, Nat.le_add_right _ _, h⟩

theorem moves_skip_one (h : c.peek.isSome) : Moves c (c.skip 1) := moves_skip fun _ => pos_lt_of_peek h

theorem moves_advance (c : Cursor) : Moves c c.advance := by
  unfold advance
  split
  · exact moves_skip_one ‹_›
  · exact .refl c

theorem pos_add_le_of_startsWith (h : c.startsWith words) (hc : c.pos ≤ c.tokens.length) :
    c.pos + words.length ≤ c.tokens.length := by
  induction words generalizing c with
  | nil => exact hc
  | cons word words ih =>
      obtain ⟨hword, hwords⟩ := Bool.and_eq_true_iff.1 h
      have hpeek : c.peek.isSome := Option.isSome_of_any hword
      have hrest := ih hwords (pos_lt_of_peek hpeek)
      rw [List.length_cons, Nat.add_comm words.length 1, ← Nat.add_assoc]
      exact hrest

theorem eq_skip_of_eatWords? (h : c.eatWords? words = some d) : c.startsWith words ∧ d = c.skip words.length := by
  unfold eatWords? at h
  split at h
  · exact ⟨‹_›, (Option.some.inj h).symm⟩
  · simp at h

theorem moves_eatWords? (h : c.eatWords? words = some d) : Moves c d := by
  obtain ⟨hwords, rfl⟩ := eq_skip_of_eatWords? h
  exact moves_skip (pos_add_le_of_startsWith hwords)

theorem eq_skip_of_eat? (h : c.eat? kind = some d) : c.isAt kind ∧ d = c.skip 1 := by
  unfold eat? at h
  split at h
  · exact ⟨‹_›, (Option.some.inj h).symm⟩
  · simp at h

theorem moves_eat? (h : c.eat? kind = some d) : Moves c d := by
  obtain ⟨hat, rfl⟩ := eq_skip_of_eat? h
  exact moves_skip_one (peek_of_isAt hat)

theorem moves_eatGroup (c : Cursor) : Moves c c.eatGroup := by
  cases hat : c.isAt .lparen with
  | true =>
      obtain ⟨before, t, r, ht, rfl⟩ := exists_before_of_isAt hat
      rw [eatGroup_mk ht]
      refine ⟨rfl, Nat.le_add_right _ _, fun _ => ?_⟩
      cases hclose : closingFrom 1 r with
      | none => simp
      | some close =>
          obtain ⟨body, u, options, rfl, rfl, -⟩ := closingFrom_one_eq_some.1 hclose
          simp
  | false =>
      rw [eatGroup_of_not_isAt hat]
      exact .refl c

theorem moves_eatFurtherNames (c : Cursor) : Moves c c.eatFurtherNames := by
  fun_induction eatFurtherNames c with
  | case1 c h ih => exact (moves_skip fun _ => pos_lt_of_peekAt (peek_of_isAtName h).2).trans ih
  | case2 c h => exact .refl c

theorem moves_eatQualifiedName (c : Cursor) : Moves c c.eatQualifiedName := by
  unfold eatQualifiedName
  split
  · exact (moves_skip_one (Option.isSome_of_isSome_bind ‹_›)).trans (moves_eatFurtherNames _)
  · exact .refl c

theorem moves_getD {o : Option Cursor} (h : ∀ d, o = some d → Moves c d) : Moves c (o.getD c) := by
  cases o with
  | none => exact .refl c
  | some d => exact h d rfl

/-- **No operation goes back or past the end.** -/
theorem Operation.moves (op : Operation) (c : Cursor) : Moves c (op.apply c) := by
  cases op with
  | advance => exact moves_advance c
  | eatWords words => exact moves_getD fun _ => moves_eatWords?
  | eat kind => exact moves_getD fun _ => moves_eat?
  | eatGroup => exact moves_eatGroup c
  | eatQualifiedName => exact moves_eatQualifiedName c

/-- Where a cursor stands that has moved. -/
theorem Moves.exists_place {tokens : List Token} {p : Nat} (h : Moves ⟨tokens, p⟩ d) (hp : p ≤ tokens.length) :
    ∃ q, d = ⟨tokens, q⟩ ∧ p ≤ q ∧ q ≤ tokens.length := by
  obtain ⟨tokens', q⟩ := d
  obtain ⟨rfl, hforward, hinside⟩ := h
  exact ⟨q, rfl, hforward, hinside hp⟩

/-! ### Runs of operations -/

/-- A cursor is reached by operations. -/
inductive Runs (c : Cursor) : Cursor → Prop
  | refl : Runs c c
  | apply {d : Cursor} (h : Runs c d) (op : Operation) : Runs c (op.apply d)

theorem Runs.trans (h : Runs c d) (h' : Runs d e) : Runs c e := by
  induction h' with
  | refl => exact h
  | apply _ op ih => exact ih.apply op

/-- **No run of operations goes back or past the end.** -/
theorem Runs.moves (h : Runs c d) : Moves c d := by
  induction h with
  | refl => exact .refl c
  | apply _ op ih => exact ih.trans (op.moves _)

theorem Operation.runs (op : Operation) (c : Cursor) : Runs c (op.apply c) := Runs.refl.apply op

theorem runs_advance (c : Cursor) : Runs c c.advance := Operation.advance.runs c

theorem runs_eat (kind : TokenKind) (c : Cursor) : Runs c (c.eat kind) := (Operation.eat kind).runs c

theorem runs_eatWords (words : List String) (c : Cursor) : Runs c (c.eatWords words) :=
  (Operation.eatWords words).runs c

theorem runs_eatGroup (c : Cursor) : Runs c c.eatGroup := Operation.eatGroup.runs c

theorem runs_eatQualifiedName (c : Cursor) : Runs c c.eatQualifiedName := Operation.eatQualifiedName.runs c

theorem runs_eatWords? (h : c.eatWords? words = some d) : Runs c d := by
  have hd : (Operation.eatWords words).apply c = d := by simp [Operation.apply, eatWords, h]
  exact hd ▸ Operation.runs _ c

theorem runs_eat? (h : c.eat? kind = some d) : Runs c d := by
  have hd : (Operation.eat kind).apply c = d := by simp [Operation.apply, eat, h]
  exact hd ▸ Operation.runs _ c

theorem runs_getD {o : Option Cursor} (h : ∀ d, o = some d → Runs c d) (he : Runs c e) : Runs c (o.getD e) := by
  cases o with
  | none => exact he
  | some d => exact h d rfl

theorem runs_eatFurtherNames (c : Cursor) : Runs c c.eatFurtherNames := by
  fun_induction eatFurtherNames c with
  | case1 c h ih =>
      -- two tokens are here, so that to go two places further is to pass over one after the other
      obtain ⟨hfirst, hsecond⟩ := peek_of_isAtName h
      have htwo : c.skip 2 = c.advance.advance := by
        rw [advance_eq hfirst, advance_eq (c := c.skip 1) hsecond]
        rfl
      have hboth : Runs c (c.skip 2) := htwo ▸ (Runs.refl.apply .advance).apply .advance
      exact hboth.trans ih
  | case2 c h => exact .refl

end Cursor

end Schemata.Sql
