import Schemata.Proofs.Columns.Cursors

/-! # Loops

A loop repeats a step.  Each time it is taken a step passes over one token at least (`Step`), so the loop ends,
at a place where its step cannot be taken (`Step.take?_loop`), and its places come one after the other
(`Step.places_sorted`).  Steps are made of passing over tokens, keywords and groups, and of going on after
that. -/

namespace Schemata.Sql.Cursor

variable {c d : Cursor}

/-! ### Steps and loops -/

/-- What a loop repeats: it is taken only where there is a token, and passes over one at least. -/
structure Step where
  take? : Cursor → Option Cursor
  there : ∀ {c d}, take? c = some d → c.peek.isSome
  runs : ∀ {c d}, take? c = some d → Runs c d
  advances : ∀ {c d}, take? c = some d → c.pos < d.pos

namespace Step

variable {s : Step}

theorem decreases (s : Step) (h : s.take? c = some d) :
    d.tokens.length - d.pos < c.tokens.length - c.pos := by
  have hlt := pos_lt_of_peek (s.there h)
  have hlater := s.advances h
  rw [(s.runs h).moves.tokens]
  omega

/-- Where a cursor stands after a step. -/
theorem exists_place {tokens : List Token} {p : Nat} (h : s.take? ⟨tokens, p⟩ = some d) :
    ∃ q, d = ⟨tokens, q⟩ ∧ p < q ∧ q ≤ tokens.length := by
  have hp : p < tokens.length := pos_lt_of_peek (s.there h)
  obtain ⟨q, rfl, -, hq⟩ := (s.runs h).moves.exists_place (Nat.le_of_lt hp)
  exact ⟨q, rfl, s.advances h, hq⟩

/-- Repeats a step as long as it can be taken. -/
def loop (s : Step) (c : Cursor) : Cursor :=
  match _h : s.take? c with
  | some d => s.loop d
  | none => c
termination_by c.tokens.length - c.pos
decreasing_by exact s.decreases _h

/-- The places at which a step is taken. -/
def places (s : Step) (c : Cursor) : List Nat :=
  match _h : s.take? c with
  | some d => c.pos :: s.places d
  | none => []
termination_by c.tokens.length - c.pos
decreasing_by exact s.decreases _h

theorem loop_of_some (h : s.take? c = some d) : s.loop c = s.loop d := by
  rw [loop]
  split <;> simp_all

theorem loop_of_none (h : s.take? c = none) : s.loop c = c := by
  rw [loop]
  split <;> simp_all

theorem runs_loop (s : Step) (c : Cursor) : Runs c (s.loop c) := by
  fun_induction s.loop c with
  | case1 c d h ih => exact (s.runs h).trans ih
  | case2 c h => exact .refl

/-- A loop stops only where its step cannot be taken. -/
theorem take?_loop (s : Step) (c : Cursor) : s.take? (s.loop c) = none := by
  fun_induction s.loop c with
  | case1 c d h ih => exact ih
  | case2 c h => exact h

/-- What is left after a step. -/
def leaves? (s : Step) (c : Cursor) : Option (List Token) := (s.take? c).map rest

/-- **What a loop leaves** is what a reader leaves that goes on after each step, and where none is taken leaves
everything. -/
theorem rest_loop {f : List Token → List Token} (h : ∀ c, f c.rest = (s.leaves? c).elim c.rest f) (c : Cursor) :
    (s.loop c).rest = f c.rest := by
  fun_induction s.loop c with
  | case1 c d hd ih =>
      rw [ih, h c, leaves?, hd]
      rfl
  | case2 c hc =>
      rw [h c, leaves?, hc]
      rfl

/-- **A loop goes on with each step**: the places at which it is taken are in order, from where the loop starts
to before where it ends. -/
theorem places_sorted (s : Step) (c : Cursor) :
    (s.places c).Pairwise (· < ·) ∧ ∀ p ∈ s.places c, c.pos ≤ p ∧ p < (s.loop c).pos := by
  fun_induction s.places c with
  | case1 c d h ih =>
      obtain ⟨hsorted, hbounds⟩ := ih
      have hlater := s.advances h
      have hafter : ∀ p ∈ s.places d, c.pos < p := fun p hp => Nat.lt_of_lt_of_le hlater (hbounds p hp).1
      rw [loop_of_some h]
      refine ⟨List.pairwise_cons.2 ⟨hafter, hsorted⟩, List.forall_mem_cons.2 ⟨⟨Nat.le_refl _, ?_⟩, ?_⟩⟩
      · exact Nat.lt_of_lt_of_le hlater (s.runs_loop d).moves.forward
      · exact fun p hp => ⟨Nat.le_of_lt (hafter p hp), (hbounds p hp).2⟩
  | case2 c h => simp

/-! ### Kinds of steps -/

/-- Passes over a token of which a test holds. -/
def satisfying (p : Token → Bool) : Step where
  take? c := if c.peek.any p then some c.advance else none
  there h := Option.isSome_of_any (Option.ite_none_right_eq_some.1 h).1
  runs h := Option.some.inj (Option.ite_none_right_eq_some.1 h).2 ▸ Runs.refl.apply .advance
  advances h := by
    obtain ⟨htest, rfl⟩ := by simpa only [Option.ite_none_right_eq_some, Option.some.injEq] using h
    rw [advance_eq (Option.isSome_of_any htest)]
    exact Nat.lt_succ_self _

/-- Passes over a token of a kind. -/
def token (kind : TokenKind) : Step where
  take? := eat? kind
  there h := peek_of_isAt (eq_skip_of_eat? h).1
  runs := runs_eat?
  advances h := (eq_skip_of_eat? h).2 ▸ Nat.lt_succ_self _

/-- Passes over keywords, of which there is one at least. -/
def words (word : String) (more : List String) : Step where
  take? := eatWords? (word :: more)
  there h := Option.isSome_of_any (Bool.and_eq_true_iff.1 (eq_skip_of_eatWords? h).1).1
  runs := runs_eatWords?
  advances h := (eq_skip_of_eatWords? h).2 ▸ Nat.lt_add_of_pos_right (Nat.succ_pos _)

/-- Passes over a group in parentheses. -/
def group : Step where
  take? c := if c.isAt .lparen then some c.eatGroup else none
  there h := peek_of_isAt (Option.ite_none_right_eq_some.1 h).1
  runs h := Option.some.inj (Option.ite_none_right_eq_some.1 h).2 ▸ Runs.refl.apply .eatGroup
  advances h := by
    obtain ⟨hat, rfl⟩ := by simpa only [Option.ite_none_right_eq_some, Option.some.injEq] using h
    obtain ⟨before, t, r, ht, rfl⟩ := exists_before_of_isAt hat
    rw [eatGroup_mk ht]
    cases closingFrom 1 r <;> simp

/-- Goes on after a step. -/
def andThen (s : Step) (goOn : Cursor → Cursor) (h : ∀ c, Runs c (goOn c)) : Step where
  take? c := (s.take? c).map goOn
  there hd := by
    obtain ⟨e, he, -⟩ := Option.map_eq_some_iff.1 hd
    exact s.there he
  runs hd := by
    obtain ⟨e, he, rfl⟩ := Option.map_eq_some_iff.1 hd
    exact (s.runs he).trans (h e)
  advances hd := by
    obtain ⟨e, he, rfl⟩ := Option.map_eq_some_iff.1 hd
    exact Nat.lt_of_lt_of_le (s.advances he) (h e).moves.forward

/-- Takes the first of some steps that can be taken. -/
def firstOf (steps : List Step) : Step where
  take? c := steps.findSome? (·.take? c)
  there hd := by
    obtain ⟨s, -, hs⟩ := List.exists_of_findSome?_eq_some hd
    exact s.there hs
  runs hd := by
    obtain ⟨s, -, hs⟩ := List.exists_of_findSome?_eq_some hd
    exact s.runs hs
  advances hd := by
    obtain ⟨s, -, hs⟩ := List.exists_of_findSome?_eq_some hd
    exact s.advances hs

/-! ### What steps leave -/

theorem leaves?_satisfying (p : Token → Bool) (c : Cursor) :
    (satisfying p).leaves? c = if c.rest.head?.any p then some (c.rest.drop 1) else none := by
  change (if c.peek.any p then some c.advance else none).map rest = _
  rw [peek_eq, apply_ite (Option.map rest), Option.map_some, rest_advance]
  rfl

theorem leaves?_token (kind : TokenKind) (c : Cursor) : (token kind).leaves? c =
    if c.rest.head?.any (·.kind == kind) then some (c.rest.drop 1) else none := by
  change (if c.isAt kind then some (c.skip 1) else none).map rest = _
  rw [isAt_eq, apply_ite (Option.map rest), Option.map_some, rest_skip]
  rfl

theorem leaves?_words (word : String) (more : List String) (c : Cursor) :
    (words word more).leaves? c = afterWords (word :: more) c.rest :=
  map_rest_eatWords? _ c

theorem leaves?_group (c : Cursor) : group.leaves? c = (parenGroup? c.rest).map Prod.snd := by
  change (if c.isAt .lparen then some c.eatGroup else none).map rest = _
  rw [isAt_eq, apply_ite (Option.map rest), Option.map_some, rest_eatGroup]
  cases c.rest with
  | nil => rfl
  | cons t r =>
      rw [skipGroup, parenGroup?]
      by_cases ht : t.kind = .lparen
      · cases closingFrom 1 r <;> simp [ht]
      · simp [ht]

theorem leaves?_andThen {goOn : Cursor → Cursor} {h : ∀ c, Runs c (goOn c)} (g : List Token → List Token)
    (hrest : ∀ c, (goOn c).rest = g c.rest) (c : Cursor) :
    (s.andThen goOn h).leaves? c = (s.leaves? c).map g := by
  change ((s.take? c).map goOn).map rest = ((s.take? c).map rest).map g
  rw [Option.map_map, Option.map_map]
  congr 1
  exact funext hrest

theorem leaves?_firstOf (steps : List Step) (c : Cursor) :
    (firstOf steps).leaves? c = steps.findSome? (·.leaves? c) :=
  List.map_findSome?

/-- A loop over tokens of which a test holds drops them. -/
theorem rest_loop_satisfying (p : Token → Bool) (c : Cursor) :
    ((satisfying p).loop c).rest = c.rest.dropWhile p := by
  refine rest_loop (fun c => ?_) c
  rw [leaves?_satisfying]
  cases c.rest with
  | nil => rfl
  | cons t r => cases ht : p t <;> simp [ht]

/-- What a loop leaves that starts each of its steps with a token of a kind. -/
theorem rest_loop_token {kind : TokenKind} {goOn : Cursor → Cursor} {hgoOn : ∀ c, Runs c (goOn c)}
    {f g : List Token → List Token} (hrest : ∀ c, (goOn c).rest = g c.rest)
    (hcons : ∀ t r, t.kind = kind → f (t :: r) = f (g r))
    (hother : ∀ ts, ts.head?.any (·.kind == kind) = false → f ts = ts) (c : Cursor) :
    (((token kind).andThen goOn hgoOn).loop c).rest = f c.rest := by
  refine rest_loop (fun c => ?_) c
  rw [leaves?_andThen g hrest, leaves?_token]
  cases hat : c.rest.head?.any (·.kind == kind) with
  | true =>
      obtain ⟨t, r, hc⟩ : ∃ t r, c.rest = t :: r := by
        cases hc : c.rest with
        | nil => simp [hc] at hat
        | cons t r => exact ⟨t, r, rfl⟩
      rw [hc] at hat ⊢
      exact hcons t r (by simpa using hat)
  | false => exact hother _ hat

end Step

end Schemata.Sql.Cursor
