import Schemata.Sql.Token

/-! # Groups of tokens

Definitions are separated by commas that stand in no parentheses, and a parenthesis is closed by the
first later one that leaves as many closed as opened. -/

namespace Schemata.Sql

/-- The number of open parentheses after a token; a closing one without a partner does not count. -/
def depthAfter (depth : Nat) (t : Token) : Nat :=
  match t.kind with
  | .lparen => depth + 1
  | .rparen => depth - 1
  | _ => depth

/-- The parts between the commas outside parentheses, empty parts included, inside `depth` open
parentheses. -/
def partsFrom (depth : Nat) : List Token → List (List Token)
  | [] => [[]]
  | t :: r =>
    if t.kind = .comma ∧ depth = 0 then [] :: partsFrom depth r
    else
      match partsFrom (depthAfter depth t) r with
      | [] => [[t]]
      | part :: rest => (t :: part) :: rest

/-- The parts between the commas outside parentheses that are not empty. -/
def splitDefinitions (tokens : List Token) : List (List Token) :=
  (partsFrom 0 tokens).filter (!·.isEmpty)

/-- The position of the parenthesis that closes the first of those read, of which `depth` are open
already. -/
def closingFrom (depth : Nat) : List Token → Option Nat
  | [] => none
  | t :: r =>
    match t.kind with
    | .lparen => (closingFrom (depth + 1) r).map (· + 1)
    | .rparen =>
      match depth with
      | 0 => none
      | 1 => some 0
      | n + 2 => (closingFrom (n + 1) r).map (· + 1)
    | _ => (closingFrom depth r).map (· + 1)

/-- The position of the parenthesis that closes the one at position `start`. -/
def matchingParen (tokens : List Token) (start : Nat) : Option Nat :=
  (closingFrom 0 (tokens.drop start)).map (· + start)

/-- The tokens between a parenthesis at the front and its partner, and those after it.  A
parenthesis that is never closed takes everything. -/
def parenGroup? : List Token → Option (List Token × List Token)
  | [] => none
  | t :: r =>
    if t.kind = .lparen then
      match closingFrom 1 r with
      | some close => some (r.take close, r.drop (close + 1))
      | none => some (r, [])
    else none

/-- What follows a group in parentheses if there is one at the front. -/
def skipGroup (tokens : List Token) : List Token :=
  match parenGroup? tokens with
  | some (_, rest) => rest
  | none => tokens

/-- What follows the given keywords if the tokens start with them. -/
def afterWords : List String → List Token → Option (List Token)
  | [], tokens => some tokens
  | _ :: _, [] => none
  | word :: words, t :: r => if t.isKeyword word then afterWords words r else none

/-- Skips a keyword if it is there. -/
def skipWord (word : String) (tokens : List Token) : List Token :=
  (afterWords [word] tokens).getD tokens

/-- Whether the tokens start with one of the given keywords. -/
def startsWithOneOf (words : List String) (tokens : List Token) : Bool :=
  tokens.head?.any (·.isOneOf words)

/-- The names joined by points at the front, and what follows them. -/
def furtherNames : List Token → List String × List Token
  | p :: t :: r =>
    match t.ident? with
    | some name =>
      if p.kind = .dot then
        let (names, rest) := furtherNames r
        (name :: names, rest)
      else ([], p :: t :: r)
    | none => ([], p :: t :: r)
  | tokens => ([], tokens)

/-- The parts of a qualified name at the front, and what follows it. -/
def qualifiedName? : List Token → Option (List String × List Token)
  | [] => none
  | t :: r =>
    let (names, rest) := furtherNames r
    t.ident?.map fun name => (name :: names, rest)

/-! ### What is left is the end of what was given -/

theorem parenGroup?_cons_suffix {t : Token} {r group rest : List Token}
    (h : parenGroup? (t :: r) = some (group, rest)) : rest <:+ r := by
  unfold parenGroup? at h
  dsimp only at h
  split at h
  · split at h
    · obtain ⟨rfl, rfl⟩ := Prod.mk.inj (Option.some.inj h)
      exact List.drop_suffix _ _
    · obtain ⟨rfl, rfl⟩ := Prod.mk.inj (Option.some.inj h)
      exact List.nil_suffix
  · simp at h

theorem parenGroup?_suffix {tokens group rest : List Token}
    (h : parenGroup? tokens = some (group, rest)) : rest <:+ tokens := by
  cases tokens with
  | nil => simp [parenGroup?] at h
  | cons t r => exact (parenGroup?_cons_suffix h).trans (List.suffix_cons _ _)

theorem skipGroup_suffix (tokens : List Token) : skipGroup tokens <:+ tokens := by
  unfold skipGroup
  split
  · exact parenGroup?_suffix ‹_›
  · exact List.suffix_refl _

theorem afterWords_suffix {words : List String} {tokens rest : List Token}
    (h : afterWords words tokens = some rest) : rest <:+ tokens := by
  fun_induction afterWords words tokens with
  | case1 => exact Option.some.inj h ▸ List.suffix_refl _
  | case2 => simp at h
  | case3 _ _ _ _ _ ih => exact (ih h).trans (List.suffix_cons _ _)
  | case4 => simp at h

theorem skipWord_suffix (word : String) (tokens : List Token) :
    skipWord word tokens <:+ tokens := by
  unfold skipWord
  cases h : afterWords [word] tokens with
  | none => exact List.suffix_refl _
  | some rest => exact afterWords_suffix h

theorem furtherNames_suffix (tokens : List Token) : (furtherNames tokens).2 <:+ tokens := by
  fun_induction furtherNames tokens with
  | case1 p t r name _ _ names rest _ ih =>
    simp_all only
    exact ih.trans ((List.suffix_cons _ _).trans (List.suffix_cons _ _))
  | case2 => exact List.suffix_refl _
  | case3 => exact List.suffix_refl _
  | case4 => exact List.suffix_refl _

theorem qualifiedName?_suffix {tokens rest : List Token} {names : List String}
    (h : qualifiedName? tokens = some (names, rest)) : rest <:+ tokens := by
  unfold qualifiedName? at h
  split at h
  · simp at h
  · obtain ⟨_, _, he⟩ := Option.map_eq_some_iff.1 h
    obtain ⟨_, rfl⟩ := Prod.mk.inj he
    exact (furtherNames_suffix _).trans (List.suffix_cons _ _)

end Schemata.Sql
