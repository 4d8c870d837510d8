import Schemata.Proofs.Sql.GuardedDefinitions
import Schemata.Proofs.Sql.Parentheses

/-! # Partners of parentheses

The partner of an opening parenthesis is the first token at which as many parentheses are closed as are
opened from it on (`IsPartner`).  What stands between the two is balanced (`encloses_cons_iff`), and balanced
tokens are what the reader looks for (`closingFrom_one_eq_some`), so it finds the partner whenever there is one
and never anything else (`partner_found`). -/

namespace Schemata.Sql

variable {start close : Nat} {k l : TokenKind} {inner ks : List TokenKind} {t : Token}
  {tokens before r : List Token}

/-! ### Kinds that enclose -/

/-- As many parentheses are closed as are opened, and at no place before the end. -/
structure Encloses (ks : List TokenKind) : Prop where
  total : ks.count .lparen = ks.count .rparen
  every : ∀ before, before <+: ks → before ≠ [] → before ≠ ks → before.count .rparen < before.count .lparen

/-- **What a parenthesis and its partner enclose** is balanced. -/
theorem encloses_cons_iff :
    Encloses (k :: (inner ++ [l])) ↔ k = .lparen ∧ l = .rparen ∧ IsBalanced inner := by
  rw [isBalanced_iff]
  constructor
  · intro h
    -- the first kind alone and all but the last one are starts that leave something open
    have hfirst := h.every [k] ⟨inner ++ [l], rfl⟩ (by simp) (by simp)
    have hinit := h.every (k :: inner) ⟨[l], rfl⟩ (by simp) (by simp)
    obtain rfl : k = .lparen := by
      by_contra hk
      simp [List.count_singleton, hk] at hfirst
    have htotal := h.total
    obtain rfl : l = .rparen := by
      by_contra hl
      simp only [List.count_cons, List.count_append, List.count_nil, beq_iff_eq, hl, if_false] at htotal hinit
      omega
    refine ⟨rfl, rfl, by simpa using htotal, fun before hbefore => ?_⟩
    have hlt := h.every (.lparen :: before)
      ((List.prefix_cons_inj _).2 (hbefore.trans (List.prefix_append _ _))) (by simp) (by
        intro he
        have hlength := congrArg List.length (List.cons.inj he).2
        have := hbefore.length_le
        simp at hlength
        omega)
    simpa [Nat.lt_succ_iff] using hlt
  · rintro ⟨rfl, rfl, h⟩
    refine ⟨by simpa using h.total, fun before hbefore hne hproper => ?_⟩
    obtain ⟨before, rfl, hprefix⟩ := (List.prefix_cons_iff.1 hbefore).resolve_left hne
    have hinner : before <+: inner :=
      (List.prefix_concat_iff.1 hprefix).resolve_left fun he => hproper (by rw [he])
    simpa [Nat.lt_succ_iff] using h.every before hinner

/-! ### Partners -/

/-- The kinds of the tokens from one place to another, both included. -/
def kindsFrom (tokens : List Token) (start close : Nat) : List TokenKind :=
  ((tokens.take (close + 1)).drop start).map Token.kind

/-- The token at `close` is the partner of the one at `start`. -/
structure IsPartner (tokens : List Token) (start close : Nat) : Prop where
  after : start < close
  inside : close < tokens.length
  encloses : Encloses (kindsFrom tokens start close)

theorem kindsFrom_append (before : List Token) (t : Token) (body : List Token) (u : Token)
    (options : List Token) :
    kindsFrom (before ++ t :: (body ++ u :: options)) before.length (before.length + (body.length + 1)) =
      t.kind :: (body.map Token.kind ++ [u.kind]) := by
  have hsplit : before ++ t :: (body ++ u :: options) = (before ++ t :: (body ++ [u])) ++ options := by simp
  have hlength : before.length + (body.length + 1) + 1 = (before ++ t :: (body ++ [u])).length := by
    simp [Nat.add_assoc]
  rw [kindsFrom, hsplit, hlength, List.take_left, List.drop_left]
  simp

theorem exists_split (h : tokens[start]? = some t) :
    ∃ before r, tokens = before ++ t :: r ∧ before.length = start := by
  obtain ⟨hlt, rfl⟩ := List.getElem?_eq_some_iff.1 h
  refine ⟨tokens.take start, tokens.drop (start + 1), ?_, List.length_take_of_le (Nat.le_of_lt hlt)⟩
  rw [← List.drop_eq_getElem_cons hlt, List.take_append_drop]

/-- Between two places of some tokens there are others. -/
theorem exists_between_places (h : before.length < close) (hinside : close < (before ++ t :: r).length) :
    ∃ body u options, r = body ++ u :: options ∧ close = before.length + (body.length + 1) := by
  have hn : close - before.length - 1 < r.length := by
    simp only [List.length_append, List.length_cons] at hinside
    omega
  obtain ⟨body, options, hr, hbody⟩ := exists_split (List.getElem?_eq_getElem hn)
  exact ⟨body, _, options, hr, by omega⟩

/-- **The partner comes after balanced tokens**, with a closing parenthesis. -/
theorem isPartner_append_iff (before : List Token) (t : Token) (r : List Token) :
    IsPartner (before ++ t :: r) before.length close ↔ t.kind = .lparen ∧ ∃ body u options,
      r = body ++ u :: options ∧ close = before.length + (body.length + 1) ∧ u.kind = .rparen ∧
        IsBalanced (body.map Token.kind) := by
  constructor
  · intro h
    obtain ⟨body, u, options, rfl, rfl⟩ := exists_between_places h.after h.inside
    have hencloses := h.encloses
    rw [kindsFrom_append, encloses_cons_iff] at hencloses
    exact ⟨hencloses.1, body, u, options, rfl, rfl, hencloses.2⟩
  · rintro ⟨ht, body, u, options, rfl, rfl, hu, hbody⟩
    refine ⟨by omega, by simp, ?_⟩
    rw [kindsFrom_append, encloses_cons_iff]
    exact ⟨ht, hu, hbody⟩

/-- **The reader finds partners** and nothing else. -/
theorem matchingParen_eq_some_iff (ht : t.kind = .lparen) (before r : List Token) (close : Nat) :
    matchingParen (before ++ t :: r) before.length = some close ↔
      IsPartner (before ++ t :: r) before.length close := by
  simp only [Guarded.matchingParen_append ht, isPartner_append_iff, ht, true_and, Option.map_eq_some_iff,
    closingFrom_one_eq_some]
  constructor
  · rintro ⟨_, ⟨body, u, options, rfl, rfl, hbody⟩, rfl⟩
    exact ⟨body, u, options, rfl, rfl, hbody⟩
  · rintro ⟨body, u, options, rfl, rfl, hbody⟩
    exact ⟨_, ⟨body, u, options, rfl, rfl, hbody⟩, rfl⟩

/-! ### Groups -/

/-- What is found for an opening parenthesis at a place. -/
structure FindsPartner (tokens : List Token) (start : Nat) : Prop where
  found : ∀ close, matchingParen tokens start = some close ↔ IsPartner tokens start close
  missing : matchingParen tokens start = none ↔ ¬∃ close, IsPartner tokens start close
  unique : ∀ close other, IsPartner tokens start close → IsPartner tokens start other → close = other
  /-- The group has the tokens between both, and is followed by those after the partner. -/
  group : ∀ close, IsPartner tokens start close →
    parenGroup? (tokens.drop start) =
      some ((tokens.take close).drop (start + 1), tokens.drop (close + 1))
  /-- Without a partner the group takes all tokens. -/
  rest : (¬∃ close, IsPartner tokens start close) →
    parenGroup? (tokens.drop start) = some (tokens.drop (start + 1), [])

/-- **An opening parenthesis is matched with its partner**, and its group is what stands between both. -/
theorem partner_found (h : tokens[start]? = some t) (ht : t.kind = .lparen) :
    FindsPartner tokens start := by
  obtain ⟨before, r, rfl, rfl⟩ := exists_split h
  have hfound := matchingParen_eq_some_iff ht before r
  have hmissing : matchingParen (before ++ t :: r) before.length = none ↔
      ¬∃ close, IsPartner (before ++ t :: r) before.length close := by
    simp only [← hfound, ← Option.isSome_iff_exists, Option.not_isSome_iff_eq_none]
  constructor
  case found => exact hfound
  case missing => exact hmissing
  case unique =>
    intro close other hclose hother
    exact Option.some.inj (((hfound close).2 hclose).symm.trans ((hfound other).2 hother))
  case group =>
    intro close hclose
    obtain ⟨-, body, u, options, rfl, rfl, hu, hbody⟩ := (isPartner_append_iff before t r).1 hclose
    rw [List.drop_left, parenGroup?_group ht hu hbody, List.take_length_add_append, List.drop_length_add_append,
      Nat.add_assoc, List.drop_length_add_append]
    simp
  case rest =>
    intro hnone
    rw [← hmissing, Guarded.matchingParen_append ht, Option.map_eq_none_iff] at hnone
    rw [List.drop_left, parenGroup?, if_pos ht, hnone, ← List.drop_drop, List.drop_left, List.drop_one,
      List.tail_cons]

/-- The tokens of `t (a, (b)) (`. -/
def noteTokens : List Token :=
  [⟨.word "t", ⟨0, 1⟩⟩, ⟨.lparen, ⟨2, 3⟩⟩, ⟨.word "a", ⟨3, 4⟩⟩, ⟨.comma, ⟨4, 5⟩⟩, ⟨.lparen, ⟨6, 7⟩⟩,
    ⟨.word "b", ⟨7, 8⟩⟩, ⟨.rparen, ⟨8, 9⟩⟩, ⟨.rparen, ⟨9, 10⟩⟩, ⟨.lparen, ⟨11, 12⟩⟩]

/-- A parenthesis with a partner, one inside of it, and one without a partner. -/
theorem partner_noteTokens :
    (noteTokens[1]? = some ⟨.lparen, ⟨2, 3⟩⟩ ∧ FindsPartner noteTokens 1) ∧
      (matchingParen noteTokens 1 = some 7 ∧ matchingParen noteTokens 4 = some 6) ∧
      matchingParen noteTokens 8 = none :=
  ⟨⟨rfl, partner_found rfl rfl⟩, by decide, by decide⟩

end Schemata.Sql
