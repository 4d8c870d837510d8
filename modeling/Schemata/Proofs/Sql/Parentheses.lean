import Schemata.Proofs.Sql.KeyParts

/-! # Balanced parentheses

Parentheses are balanced if as many are closed as are opened and at no place more (`isBalanced_iff`).  In
balanced tokens every parenthesis is closed (`isSome_closingFrom`), what it encloses is balanced
(`isBalanced_of_parenGroup?`), and so are the parts between the commas outside parentheses
(`isPart_of_mem_splitDefinitions`). -/

namespace Schemata.Sql

variable {n m i : Nat} {ks : List TokenKind} {t : Token} {ts us group rest : List Token}
  {parts : List (List Token)}

/-! ### Counting -/

/-- As many parentheses are closed as are opened, and at no place more. -/
structure Balances (ks : List TokenKind) : Prop where
  total : ks.count .lparen = ks.count .rparen
  every : ∀ before, before <+: ks → before.count .rparen ≤ before.count .lparen

/-- The number of open parentheses is that of the opened ones without that of the closed ones, if these
are nowhere more. -/
theorem depthThrough_eq_some_iff :
    depthThrough false n ks = some m ↔ n + ks.count .lparen = m + ks.count .rparen ∧
      ∀ before, before <+: ks → before.count .rparen ≤ n + before.count .lparen := by
  induction ks generalizing n with
  | nil =>
      simp only [depthThrough, Option.some.injEq, List.count_nil, Nat.add_zero, List.prefix_nil,
        forall_eq, Nat.zero_le, and_true]
  | cons k ks ih =>
      have hfirst : ∀ {p : List TokenKind → Prop}, p [] →
          ((∀ before, before <+: k :: ks → p before) ↔ ∀ before, before <+: ks → p (k :: before)) := by
        intro p hnil
        simp only [List.prefix_cons_iff]
        constructor
        · exact fun h before hbefore => h _ (.inr ⟨before, rfl, hbefore⟩)
        · rintro h before (rfl | ⟨before, rfl, hbefore⟩)
          · exact hnil
          · exact h before hbefore
      rw [hfirst (by simp)]
      cases k with
      | lparen =>
          rw [depthThrough, ih]
          simp [Nat.add_assoc, Nat.add_comm 1]
      | rparen =>
          cases n with
          | zero =>
              simp only [depthThrough, reduceCtorEq, false_iff, not_and]
              intro _ h
              simpa using h [] List.nil_prefix
          | succ n =>
              have hclosed : ∀ l : List TokenKind, (.rparen :: l).count .rparen = l.count .rparen + 1 ∧
                  (.rparen :: l).count .lparen = l.count .lparen := by simp
              rw [depthThrough, ih]
              refine and_congr ?_ (forall₂_congr fun before _ => ?_)
              · have := hclosed ks
                omega
              · have := hclosed before
                omega
      | _ =>
          simp only [depthThrough, ih, Bool.false_and, Bool.false_eq_true, if_false]
          simp

/-- **Parentheses are balanced** exactly if their numbers are. -/
theorem isBalanced_iff : IsBalanced ks ↔ Balances ks := by
  rw [IsBalanced, depthThrough_eq_some_iff]
  simp only [Nat.zero_add]
  exact ⟨fun h => ⟨h.1, h.2⟩, fun h => ⟨h.total, h.every⟩⟩

/-! ### Closed parentheses -/

/-- A parenthesis is closed before those around it are. -/
theorem isSome_closingFrom (h : depthThrough false (i + 1 + n) (ts.map Token.kind) = some m)
    (hm : m ≤ n) : (closingFrom (i + 1) ts).isSome := by
  induction ts generalizing i with
  | nil =>
      have : i + 1 + n = m := Option.some.inj h
      omega
  | cons t ts ih =>
      rw [List.map_cons] at h
      unfold closingFrom
      cases hk : t.kind with
      | lparen =>
          rw [hk, depthThrough, show i + 1 + n + 1 = i + 1 + 1 + n by omega] at h
          simpa using ih h
      | rparen =>
          rw [hk, show i + 1 + n = i + n + 1 by omega, depthThrough] at h
          cases i with
          | zero => rfl
          | succ i => simpa using ih h
      | _ =>
          rw [hk] at h
          simpa using ih h

/-- No parenthesis at the front is left open to the end. -/
def FrontCloses (ts : List Token) : Prop :=
  ∀ t r, ts = t :: r → t.kind = .lparen → (closingFrom 1 r).isSome

/-- **In balanced tokens every parenthesis is closed.** -/
theorem frontCloses_of_isBalanced (h : IsBalanced (ts.map Token.kind)) (hus : us <:+ ts) :
    FrontCloses us := by
  rintro t r rfl ht
  obtain ⟨before, rfl⟩ := hus
  rw [List.map_append, List.map_cons, ht, IsBalanced, depthThrough_append] at h
  obtain ⟨n, -, hn⟩ := Option.bind_eq_some_iff.1 h
  exact isSome_closingFrom (i := 0) (by rw [Nat.zero_add, Nat.add_comm]; exact hn) (Nat.zero_le n)

/-- What a closed parenthesis at the front encloses is balanced. -/
theorem isBalanced_of_parenGroup? (h : FrontCloses us) (hgroup : parenGroup? us = some (group, rest)) :
    IsBalanced (group.map Token.kind) := by
  cases us with
  | nil => simp [parenGroup?] at hgroup
  | cons t r =>
      unfold parenGroup? at hgroup
      dsimp only at hgroup
      split at hgroup
      · rename_i ht
        obtain ⟨close, hclose⟩ := Option.isSome_iff_exists.1 (h t r rfl ht)
        obtain ⟨body, u, options, rfl, rfl, -, hbody⟩ := closingFrom_one_eq_some.1 hclose
        rw [hclose] at hgroup
        obtain ⟨rfl, -⟩ := Prod.mk.inj (Option.some.inj hgroup)
        rw [List.take_left]
        exact hbody
      · simp at hgroup

/-! ### Parts -/

theorem Separates.isPart (h : Separates ts parts) : ∀ part ∈ parts, IsPart (part.map Token.kind) := by
  induction h with
  | last hpart => simpa using hpart
  | comma hpart _ _ ih => exact List.forall_mem_cons.2 ⟨hpart, ih⟩

/-- **The parts of balanced tokens are balanced.** -/
theorem isPart_of_mem_splitDefinitions {part : List Token} (h : IsBalanced (ts.map Token.kind))
    (hpart : part ∈ splitDefinitions ts) : IsPart (part.map Token.kind) := by
  obtain ⟨parts, hparts⟩ := exists_separates h
  rw [splitDefinitions, hparts.partsFrom_eq] at hpart
  exact hparts.isPart part (List.mem_filter.1 hpart).1

end Schemata.Sql
