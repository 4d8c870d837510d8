import Schemata.Sql.Statement

/-! # Nesting of tokens

How tokens are grouped depends on their kinds alone.  Kinds in which every parenthesis has its
partner are `IsBalanced`, and a group of them is closed where it ends (`parenGroup?_group`).  Kinds
that have no comma outside parentheses either are a `IsPart`; a body in which commas stand between
parts is split into these (`map_kind_splitDefinitions`), and a script in which semicolons end the
statements is split into these (`map_kind_statements`). -/

namespace Schemata.Sql

variable {together : Bool} {n m : Nat} {ks ls : List TokenKind} {t u : Token} {ts us : List Token}

/-! ### Depth -/

/-- The number of open parentheses after tokens of the given kinds, if every closing one has a
partner.  Kinds that have to keep together have no comma outside parentheses. -/
def depthThrough (together : Bool) (depth : Nat) : List TokenKind → Option Nat
  | [] => some depth
  | .lparen :: ks => depthThrough together (depth + 1) ks
  | .rparen :: ks =>
    match depth with
    | 0 => none
    | n + 1 => depthThrough together n ks
  | .comma :: ks => if together && depth == 0 then none else depthThrough together depth ks
  | _ :: ks => depthThrough together depth ks

/-- Every parenthesis has its partner. -/
def IsBalanced (ks : List TokenKind) : Prop := depthThrough false 0 ks = some 0

/-- Every parenthesis has its partner, and every comma stands in parentheses. -/
def IsPart (ks : List TokenKind) : Prop := depthThrough true 0 ks = some 0

/-- A token that is neither a parenthesis nor a comma. -/
def isPlain : TokenKind → Bool
  | .lparen | .rparen | .comma => false
  | _ => true

theorem depthThrough_plain {k : TokenKind} (h : isPlain k) :
    depthThrough together n (k :: ks) = depthThrough together n ks := by
  cases k <;> simp_all [isPlain, depthThrough]

theorem depthThrough_append (n : Nat) (ks ls : List TokenKind) :
    depthThrough together n (ks ++ ls) =
      (depthThrough together n ks).bind (depthThrough together · ls) := by
  induction ks generalizing n with
  | nil => rfl
  | cons k ks ih =>
      cases k with
      | lparen => simp [depthThrough, ih]
      | rparen => cases n <;> simp [depthThrough, ih]
      | comma =>
          rw [List.cons_append, depthThrough, depthThrough]
          split <;> simp [ih]
      | _ => simp [depthThrough, ih]

/-- Inside parentheses commas do not matter. -/
theorem depthThrough_inside (h : depthThrough false n ks = some m) :
    depthThrough together (n + 1) ks = some (m + 1) := by
  induction ks generalizing n with
  | nil =>
      obtain rfl := Option.some.inj h
      rfl
  | cons k ks ih =>
      cases k with
      | lparen => exact ih h
      | rparen =>
          cases n with
          | zero => simp [depthThrough] at h
          | succ n => exact ih h
      | comma =>
          rw [depthThrough, if_neg (by simp)]
          exact ih h
      | _ => exact ih h

theorem depthThrough_of_together (h : depthThrough true n ks = some m) :
    depthThrough false n ks = some m := by
  induction ks generalizing n with
  | nil => exact h
  | cons k ks ih =>
      cases k with
      | lparen => exact ih h
      | rparen =>
          cases n with
          | zero => simp [depthThrough] at h
          | succ n => exact ih h
      | comma =>
          rw [depthThrough] at h
          split at h
          · simp at h
          · exact ih h
      | _ => exact ih h

theorem IsPart.balanced (h : IsPart ks) : IsBalanced ks := depthThrough_of_together h

theorem balanced_nil : IsBalanced [] := rfl

theorem part_nil : IsPart [] := rfl

theorem IsBalanced.append (h : IsBalanced ks) (h' : IsBalanced ls) : IsBalanced (ks ++ ls) := by
  rw [IsBalanced, depthThrough_append, h]
  exact h'

theorem IsPart.append (h : IsPart ks) (h' : IsPart ls) : IsPart (ks ++ ls) := by
  rw [IsPart, depthThrough_append, h]
  exact h'

theorem IsPart.cons {k : TokenKind} (hk : isPlain k) (h : IsPart ks) : IsPart (k :: ks) := by
  rw [IsPart, depthThrough_plain hk]
  exact h

theorem IsPart.flatMap {α : Type} {f : α → List TokenKind} {l : List α} (h : ∀ a ∈ l, IsPart (f a)) :
    IsPart (l.flatMap f) := by
  induction l with
  | nil => exact part_nil
  | cons a l ih =>
      rw [List.flatMap_cons]
      exact (h a (by simp)).append (ih fun b hb => h b (by simp [hb]))

/-- A group in parentheses. -/
theorem IsBalanced.group (h : IsBalanced ks) : IsPart (.lparen :: (ks ++ [.rparen])) := by
  rw [IsPart, depthThrough, depthThrough_append, depthThrough_inside h]
  rfl

theorem IsBalanced.comma (h : IsBalanced ks) : IsBalanced (.comma :: ks) := h

/-- Parts with commas between them. -/
theorem balanced_intercalate {kss : List (List TokenKind)} (h : ∀ ks ∈ kss, IsBalanced ks) :
    IsBalanced ([.comma].intercalate kss) := by
  induction kss with
  | nil => exact balanced_nil
  | cons ks kss ih =>
      have hk := h ks (by simp)
      cases kss with
      | nil =>
          rw [List.intercalate_singleton]
          exact hk
      | cons ls kss =>
          rw [List.intercalate_cons_cons, List.append_assoc]
          exact hk.append (ih fun ks hks => h ks (by simp [hks])).comma

/-! ### Groups in parentheses -/

theorem closingFrom_append (h : depthThrough false n (ts.map Token.kind) = some m) :
    closingFrom (n + 1) (ts ++ us) = (closingFrom (m + 1) us).map (· + ts.length) := by
  induction ts generalizing n with
  | nil =>
      obtain rfl := Option.some.inj h
      simp
  | cons t ts ih =>
      have step : ∀ {n}, depthThrough false n (ts.map Token.kind) = some m →
          (closingFrom (n + 1) (ts ++ us)).map (· + 1) =
            (closingFrom (m + 1) us).map (· + (t :: ts).length) := by
        intro n hn
        rw [ih hn, Option.map_map]
        congr 1
      rw [List.map_cons] at h
      rw [List.cons_append]
      cases hk : t.kind with
      | lparen =>
          rw [hk] at h
          simpa only [closingFrom, hk] using step h
      | rparen =>
          rw [hk] at h
          cases n with
          | zero => simp [depthThrough] at h
          | succ n => simpa only [closingFrom, hk] using step h
      | _ =>
          rw [hk] at h
          simpa only [closingFrom, hk] using step h

/-- What comes before a closing parenthesis is balanced. -/
theorem closingFrom_eq_some {k : Nat} (h : closingFrom (n + 1) ts = some k) :
    ∃ body u options, ts = body ++ u :: options ∧ body.length = k ∧ u.kind = .rparen ∧
      depthThrough false n (body.map Token.kind) = some 0 := by
  induction ts generalizing n k with
  | nil => simp [closingFrom] at h
  | cons t ts ih =>
      have step : ∀ {m}, (closingFrom (m + 1) ts).map (· + 1) = some k →
          (∀ ks, depthThrough false n (t.kind :: ks) = depthThrough false m ks) →
          ∃ body u options, t :: ts = body ++ u :: options ∧ body.length = k ∧ u.kind = .rparen ∧
            depthThrough false n (body.map Token.kind) = some 0 := by
        intro m hm hdepth
        obtain ⟨k', hk', rfl⟩ := Option.map_eq_some_iff.1 hm
        obtain ⟨body, u, options, rfl, rfl, hu, hbody⟩ := ih hk'
        exact ⟨t :: body, u, options, rfl, rfl, hu, by rw [List.map_cons, hdepth, hbody]⟩
      cases hk : t.kind with
      | lparen =>
          simp only [closingFrom, hk] at h step
          exact step h fun _ => rfl
      | rparen =>
          cases n with
          | zero =>
              simp only [closingFrom, hk, Option.some.injEq] at h
              subst h
              exact ⟨[], t, ts, rfl, rfl, hk, rfl⟩
          | succ n =>
              simp only [closingFrom, hk] at h step
              exact step h fun _ => rfl
      | _ =>
          simp only [closingFrom, hk] at h step
          exact step h fun _ => rfl

/-- **Parentheses are closed after balanced tokens.** -/
theorem closingFrom_one_eq_some {k : Nat} :
    closingFrom 1 ts = some k ↔ ∃ body u options, ts = body ++ u :: options ∧ body.length = k ∧
      u.kind = .rparen ∧ IsBalanced (body.map Token.kind) := by
  constructor
  · exact closingFrom_eq_some
  · rintro ⟨body, u, options, rfl, rfl, hu, hbody⟩
    rw [closingFrom_append hbody]
    simp [closingFrom, hu]

/-- **A group is closed where its balanced tokens end.** -/
theorem parenGroup?_group (ht : t.kind = .lparen) (hu : u.kind = .rparen)
    (h : IsBalanced (ts.map Token.kind)) : parenGroup? (t :: (ts ++ u :: us)) = some (ts, us) := by
  have hclose : closingFrom 1 (ts ++ u :: us) = some ts.length :=
    closingFrom_one_eq_some.2 ⟨ts, u, us, rfl, rfl, hu, h⟩
  rw [parenGroup?, if_pos ht, hclose]
  simp

theorem parenGroup?_of_ne (ht : t.kind ≠ .lparen) : parenGroup? (t :: ts) = none := by
  rw [parenGroup?, if_neg ht]

theorem skipGroup_group (ht : t.kind = .lparen) (hu : u.kind = .rparen)
    (h : IsBalanced (ts.map Token.kind)) : skipGroup (t :: (ts ++ u :: us)) = us := by
  rw [skipGroup, parenGroup?_group ht hu h]

/-! ### Tokens of given kinds -/

theorem exists_pair_of_kinds {j k : TokenKind} (h : ts.map Token.kind = [j, k]) :
    ∃ t u, ts = [t, u] ∧ t.kind = j ∧ u.kind = k := by
  obtain ⟨t, r, rfl, ht, hr⟩ := List.map_eq_cons_iff.1 h
  obtain ⟨u, rfl, hu⟩ := List.map_eq_singleton_iff.1 hr
  exact ⟨t, u, rfl, ht, hu⟩

/-- The kinds of a group in parentheses are those of tokens in parentheses. -/
theorem exists_group_of_kinds {inner : List TokenKind}
    (h : ts.map Token.kind = .lparen :: (inner ++ [.rparen])) :
    ∃ opening body closing, ts = opening :: (body ++ [closing]) ∧ opening.kind = .lparen ∧
      body.map Token.kind = inner ∧ closing.kind = .rparen := by
  obtain ⟨opening, r, rfl, hopening, hr⟩ := List.map_eq_cons_iff.1 h
  obtain ⟨body, last, rfl, hbody, hlast⟩ := List.map_eq_append_iff.1 hr
  obtain ⟨closing, rfl, hclosing⟩ := List.map_eq_singleton_iff.1 hlast
  exact ⟨opening, body, closing, rfl, hopening, hbody, hclosing⟩

/-! ### Parts between commas -/

/-- Puts tokens before those of the first part. -/
def beforeFirst (ts : List Token) : List (List Token) → List (List Token)
  | [] => [ts]
  | part :: rest => (ts ++ part) :: rest

theorem beforeFirst_append (ts us : List Token) (parts : List (List Token)) :
    beforeFirst (ts ++ us) parts = beforeFirst ts (beforeFirst us parts) := by
  cases parts <;> simp [beforeFirst]

theorem partsFrom_ne_nil (n : Nat) (ts : List Token) : partsFrom n ts ≠ [] := by
  cases ts with
  | nil => simp [partsFrom]
  | cons t ts =>
      rw [partsFrom]
      split
      · simp
      · split <;> simp

theorem partsFrom_cons (h : ¬(t.kind = .comma ∧ n = 0)) :
    partsFrom n (t :: ts) = beforeFirst [t] (partsFrom (depthAfter n t) ts) := by
  rw [partsFrom, if_neg h]
  split <;> rename_i hp <;> rw [hp] <;> rfl

/-- The number of open parentheses after tokens of the given kinds, of which `depth` are open before; a
closing one without a partner does not count. -/
def openAfter (depth : Nat) : List TokenKind → Nat
  | [] => depth
  | .lparen :: ks => openAfter (depth + 1) ks
  | .rparen :: ks => openAfter (depth - 1) ks
  | _ :: ks => openAfter depth ks

theorem openAfter_cons (n : Nat) (k : TokenKind) (ks : List TokenKind) :
    openAfter n (k :: ks) = openAfter (openAfter n [k]) ks := by
  cases k <;> rfl

theorem depthAfter_eq (n : Nat) (t : Token) : depthAfter n t = openAfter n [t.kind] := by
  unfold depthAfter
  cases t.kind <;> rfl

/-- Every comma stands in parentheses, of which `depth` are open before. -/
def Undivided (depth : Nat) (ks : List TokenKind) : Prop :=
  ∀ before after, ks = before ++ .comma :: after → openAfter depth before ≠ 0

theorem undivided_nil : Undivided n [] := by
  intro before after h
  simp at h

theorem undivided_cons {k : TokenKind} :
    Undivided n (k :: ks) ↔ ¬(k = .comma ∧ n = 0) ∧ Undivided (openAfter n [k]) ks := by
  constructor
  · intro h
    refine ⟨?_, fun before after hks => ?_⟩
    · rintro ⟨rfl, rfl⟩
      exact h [] ks rfl rfl
    · rw [← openAfter_cons]
      exact h (k :: before) after (congrArg (k :: ·) hks)
  · rintro ⟨hfirst, hrest⟩ before after hks
    cases before with
    | nil =>
        obtain ⟨rfl, -⟩ := List.cons.inj hks
        exact fun hn => hfirst ⟨rfl, hn⟩
    | cons k' before =>
        obtain ⟨rfl, hafter⟩ := List.cons.inj hks
        rw [openAfter_cons]
        exact hrest before after hafter

/-- Tokens without a comma outside parentheses are not divided. -/
theorem partsFrom_undivided (us : List Token) (h : Undivided n (ts.map Token.kind)) :
    partsFrom n (ts ++ us) = beforeFirst ts (partsFrom (openAfter n (ts.map Token.kind)) us) := by
  induction ts generalizing n with
  | nil =>
      obtain ⟨part, rest, hp⟩ := List.exists_cons_of_ne_nil (partsFrom_ne_nil n us)
      simp [openAfter, hp, beforeFirst]
  | cons t ts ih =>
      obtain ⟨hfirst, hrest⟩ := undivided_cons.1 h
      rw [List.cons_append, partsFrom_cons hfirst, depthAfter_eq, ih hrest, ← beforeFirst_append,
        List.map_cons, openAfter_cons n t.kind (ts.map Token.kind), List.singleton_append]

/-- Kinds that have to keep together are not divided. -/
theorem undivided_of_depthThrough (h : depthThrough true n ks = some m) :
    Undivided n ks ∧ openAfter n ks = m := by
  induction ks generalizing n with
  | nil => exact ⟨undivided_nil, Option.some.inj h⟩
  | cons k ks ih =>
      have step : ¬(k = .comma ∧ n = 0) ∧ depthThrough true (openAfter n [k]) ks = some m := by
        cases k with
        | rparen =>
            cases n with
            | zero => simp [depthThrough] at h
            | succ n => exact ⟨by simp, h⟩
        | comma =>
            rw [depthThrough] at h
            split at h
            · simp at h
            · rename_i hn
              exact ⟨by simpa using hn, h⟩
        | _ => exact ⟨by simp, h⟩
      obtain ⟨hrest, hopen⟩ := ih step.2
      rw [openAfter_cons]
      exact ⟨undivided_cons.2 ⟨step.1, hrest⟩, hopen⟩

theorem IsPart.undivided (h : IsPart ks) : Undivided 0 ks ∧ openAfter 0 ks = 0 :=
  undivided_of_depthThrough h

/-- The tokens of a part are not divided. -/
theorem partsFrom_append (us : List Token) (h : depthThrough true n (ts.map Token.kind) = some m) :
    partsFrom n (ts ++ us) = beforeFirst ts (partsFrom m us) := by
  obtain ⟨hundivided, rfl⟩ := undivided_of_depthThrough h
  exact partsFrom_undivided us hundivided

theorem partsFrom_intercalate {kss : List (List TokenKind)} (hne : kss ≠ [])
    (hpart : ∀ ks ∈ kss, IsPart ks) (h : ts.map Token.kind = [.comma].intercalate kss) :
    (partsFrom 0 ts).map (·.map Token.kind) = kss := by
  induction kss generalizing ts with
  | nil => exact absurd rfl hne
  | cons ks kss ih =>
      have hk := hpart ks (by simp)
      cases kss with
      | nil =>
          rw [List.intercalate_singleton] at h
          subst h
          have := partsFrom_append [] hk
          rw [List.append_nil] at this
          simp [this, partsFrom, beforeFirst]
      | cons ls kss =>
          rw [List.intercalate_cons_cons, List.append_assoc] at h
          obtain ⟨ts, rest, rfl, rfl, hrest⟩ := List.map_eq_append_iff.1 h
          obtain ⟨t, us, rfl, ht, hus⟩ := List.map_eq_cons_iff.1 hrest
          have := ih (by simp) (fun ks hks => hpart ks (by simp [hks])) hus
          rw [partsFrom_append _ hk, partsFrom, if_pos ⟨ht, rfl⟩]
          simp [beforeFirst, this]

/-- **Definitions between commas are told apart.** -/
theorem map_kind_splitDefinitions {kss : List (List TokenKind)}
    (hpart : ∀ ks ∈ kss, IsPart ks ∧ ks ≠ []) (h : ts.map Token.kind = [.comma].intercalate kss) :
    (splitDefinitions ts).map (·.map Token.kind) = kss := by
  by_cases hne : kss = []
  · subst hne
    obtain rfl : ts = [] := by simpa using h
    rfl
  · have hparts := partsFrom_intercalate hne (fun ks hks => (hpart ks hks).1) h
    have hall : splitDefinitions ts = partsFrom 0 ts := by
      rw [splitDefinitions, List.filter_eq_self]
      intro part hmem
      have hk : part.map Token.kind ∈ kss := by
        rw [← hparts]
        exact List.mem_map_of_mem hmem
      have := (hpart _ hk).2
      simpa using this
    rw [hall, hparts]

/-! ### Statements -/

theorem split_ne_nil (ts : List Token) : statements.split ts ≠ [] := by
  cases ts with
  | nil => simp [statements.split]
  | cons t ts =>
      rw [statements.split]
      split
      · simp
      · split <;> simp

/-- The tokens of a statement are not divided. -/
theorem split_append (h : .semicolon ∉ ts.map Token.kind) :
    statements.split (ts ++ us) = beforeFirst ts (statements.split us) := by
  induction ts with
  | nil =>
      obtain ⟨part, rest, hp⟩ := List.exists_cons_of_ne_nil (split_ne_nil us)
      simp [hp, beforeFirst]
  | cons t ts ih =>
      rw [List.map_cons, List.mem_cons, not_or] at h
      have hs : statements.split (t :: (ts ++ us)) =
          beforeFirst [t] (statements.split (ts ++ us)) := by
        rw [statements.split, if_neg (Ne.symm h.1)]
        split <;> rename_i hp <;> rw [hp] <;> rfl
      rw [List.cons_append, hs, ih h.2, ← beforeFirst_append, List.singleton_append]

/-- **Statements that end with semicolons are told apart.** -/
theorem map_kind_statements {kss : List (List TokenKind)}
    (hstmt : ∀ ks ∈ kss, .semicolon ∉ ks ∧ ks ≠ [])
    (h : ts.map Token.kind = kss.flatMap (· ++ [.semicolon])) :
    (statements ts).map (·.map Token.kind) = kss := by
  suffices hsplit : (statements.split ts).map (·.map Token.kind) = kss ++ [[]] by
    have hfilter : ∀ parts : List (List Token), (parts.filter (!·.isEmpty)).map (·.map Token.kind) =
        (parts.map (·.map Token.kind)).filter (!·.isEmpty) := by
      intro parts
      rw [List.filter_map]
      congr 2
      funext part
      simp
    rw [statements, hfilter, hsplit, List.filter_append]
    have : kss.filter (!·.isEmpty) = kss := by
      rw [List.filter_eq_self]
      intro ks hks
      simpa using (hstmt ks hks).2
    simp [this]
  induction kss generalizing ts with
  | nil =>
      obtain rfl : ts = [] := by simpa using h
      rfl
  | cons ks kss ih =>
      rw [List.flatMap_cons, List.append_assoc] at h
      obtain ⟨ts, rest, rfl, rfl, hrest⟩ := List.map_eq_append_iff.1 h
      obtain ⟨t, us, rfl, ht, hus⟩ := List.map_eq_cons_iff.1 hrest
      have := ih (fun ks hks => hstmt ks (by simp [hks])) (by simpa using hus)
      rw [split_append (hstmt _ (by simp)).1, statements.split, if_pos ht]
      simp [beforeFirst, this]

end Schemata.Sql
