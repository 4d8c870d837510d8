import Schemata.Proofs.Ddl.Types
import Schemata.Proofs.Sql.Outline

/-! # Written clauses are read

The clauses that follow the type in a written declaration are read one after the other, each as what
it says (`outlined_clauses`).  A default shows in no outline, so all that matters is where its value
ends (`outlined_value`). -/

namespace Schemata.Sql

open Schemata.Text

variable {rules : Rules} {source : List Char} {t u : Token} {r ts rest : List Token}

/-! ### Single attributes -/

theorem outlined_nil : outlined rules source [] = [] := by
  rw [outlined, attributes]
  rfl

theorem outlined_cons (t : Token) (r : List Token) :
    outlined rules source (t :: r) =
      (if (readAttribute rules source t r).1.isOutlined then [(readAttribute rules source t r).1]
        else []) ++ outlined rules source (readAttribute rules source t r).2 := by
  unfold outlined
  rw [attributes, List.filter_cons]
  split <;> rfl

theorem readAttribute_not (h : t.keyword? = some "not") (hu : u.isKeyword "null" = true) :
    readAttribute rules source t (u :: r) = (.notNull, r) := by
  simp [readAttribute, h, afterWords, hu]

theorem readAttribute_primary (h : t.keyword? = some "primary") (hu : u.isKeyword "key" = true) :
    readAttribute rules source t (u :: r) = (.primaryKey, r) := by
  simp [readAttribute, h, afterWords, hu]

theorem readAttribute_default (h : t.keyword? = some "default") :
    readAttribute rules source t r = defaultAttribute rules source r := by
  simp only [readAttribute, h]

theorem readAttribute_autoIncrement (h : t.keyword? = some "auto_increment") :
    readAttribute rules source t r = (.autoIncrement, r) := by
  simp only [readAttribute, h]

theorem readAttribute_comment (h : t.keyword? = some "comment") :
    readAttribute rules source t r = commentAttribute r := by
  simp only [readAttribute, h]

theorem readAttribute_check (h : t.keyword? = some "check") :
    readAttribute rules source t r = (.dropped .check, skipGroup r) := by
  simp only [readAttribute, h]

/-- The words that start an attribute. -/
def attributeWords : List String :=
  ["not", "null", "default", "primary", "key", "unique", "auto_increment", "autoincrement",
    "unsigned", "comment", "generated", "as", "references", "match", "on", "check", "constraint",
    "collate", "charset", "character"]

theorem readAttribute_unknown (hk : ∀ k ∈ attributeWords, t.keyword? ≠ some k)
    (hp : t.kind ≠ .lparen) : readAttribute rules source t r = (.passedOver, r) := by
  have hgroup : parenGroup? (t :: r) = none := parenGroup?_of_ne hp
  unfold readAttribute
  split
  all_goals first
    | (exfalso; rename_i h; exact hk _ (by decide) h)
    | rfl
    | rw [hgroup]

/-! ### Numerals -/

/-- A token of a numeral starts no attribute. -/
theorem keyword?_numeral {k : TokenKind} (h : isNumeralKind k) :
    ∀ w ∈ attributeWords, k.keyword? ≠ some w := by
  cases k with
  | word text =>
      have table : ∀ w ∈ attributeWords, w.toList.all isNumeralChar = false := by decide
      intro w hw he
      obtain rfl : asciiLower text = w := by simpa [TokenKind.keyword?] using he
      have hall : (asciiLower text).toList.all isNumeralChar :=
        numeral_asciiLower (by simpa [isNumeralKind] using h)
      rw [table _ hw] at hall
      simp at hall
  | _ => simp [TokenKind.keyword?]

/-- What is left of a number says nothing. -/
theorem outlined_numeral (h : ∀ t ∈ ts, isNumeralKind t.kind) :
    outlined rules source (ts ++ rest) = outlined rules source rest := by
  induction ts with
  | nil => rfl
  | cons t ts ih =>
      have ht := h t (by simp)
      have hparen : t.kind ≠ .lparen := by
        intro he
        rw [he] at ht
        simp [isNumeralKind] at ht
      have hread : readAttribute rules source t (ts ++ rest) = (.passedOver, ts ++ rest) := by
        refine readAttribute_unknown (fun k hk => ?_) hparen
        rw [keyword?_eq]
        exact keyword?_numeral ht k hk
      rw [List.cons_append, outlined_cons, hread]
      exact ih fun t ht => h t (by simp [ht])

/-! ### Defaults -/

theorem skipCasts_of_ne (h : ∀ t ∈ ts.head?, t.kind ≠ .doubleColon) : skipCasts rules ts = ts := by
  cases ts with
  | nil => rw [skipCasts]
  | cons t ts => rw [skipCasts, if_neg (h t rfl)]

/-- A default is read up to the end of its operand. -/
theorem defaultAttribute_operand (rules : Rules) (source : List Char) (hsign : skipSign ts = t :: r)
    (hnext : t.isKeyword "nextval" = false)
    (hcast : ∀ u ∈ (skipOperand (t :: r)).head?, u.kind ≠ .doubleColon) :
    ∃ text, defaultAttribute rules source ts = (.defaultTo text, skipOperand (t :: r)) := by
  unfold defaultAttribute
  rw [hsign]
  simp only [isNextValue, hnext, Bool.false_and, Bool.false_eq_true, if_false, skipCasts_of_ne hcast]
  exact ⟨_, rfl⟩

end Schemata.Sql

namespace Schemata.Ddl

open Schemata.Sql Schemata.Text

variable {d : Dialect} {rules : Rules} {source : List Char} {t u : Token}
  {r ts value rest : List Token}

theorem kind_of_startsClause (h : StartsClause d rest) :
    ∀ t ∈ rest.head?, ∃ w, t.kind = .word w := by
  intro t ht
  obtain ⟨w, -, hw⟩ := h t ht
  exact ⟨w, hw⟩

theorem skipGroup_clause (h : StartsClause d rest) : skipGroup rest = rest := by
  rw [skipGroup, parenGroup?_clause h]

theorem furtherNames_clause (h : StartsClause d rest) : furtherNames rest = ([], rest) := by
  cases rest with
  | nil => rfl
  | cons t r =>
      obtain ⟨w, hw⟩ := kind_of_startsClause h t rfl
      exact furtherNames_of_ne_dot (by simp [hw])

theorem skipSign_of_ne (h : t.kind ≠ .symbol '-' ∧ t.kind ≠ .symbol '+') :
    skipSign (t :: r) = t :: r := by
  rw [skipSign, if_neg (by tauto)]

/-- A sign before another token is skipped. -/
theorem skipSign_signs {sign : List TokenKind} {signs : List Token}
    (hsign : sign ∈ [[], [.symbol '+'], [.symbol '-']]) (hsigns : signs.map Token.kind = sign)
    (h : t.kind ≠ .symbol '-' ∧ t.kind ≠ .symbol '+') : skipSign (signs ++ t :: r) = t :: r := by
  simp only [List.mem_cons, List.not_mem_nil, or_false] at hsign
  rcases hsign with rfl | rfl | rfl
  · obtain rfl : signs = [] := by simpa using hsigns
    exact skipSign_of_ne h
  all_goals
    obtain ⟨s, rfl, hs⟩ := List.map_eq_singleton_iff.1 hsigns
    simp [skipSign, hs]

theorem ne_sign_of_isOperandKind (h : isOperandKind t.kind) :
    t.kind ≠ .symbol '-' ∧ t.kind ≠ .symbol '+' := by
  cases hkind : t.kind <;> simp_all [isOperandKind]

/-- A default whose operand is followed by the rest of a number at most. -/
theorem outlined_operand (numeral : List Token) (hsign : skipSign ts = t :: r)
    (hnext : t.isKeyword "nextval" = false) (hoperand : skipOperand (t :: r) = numeral ++ rest)
    (hnumeral : ∀ t ∈ numeral, isNumeralKind t.kind) (hrest : StartsClause d rest) :
    ∃ text tail, defaultAttribute rules source ts = (.defaultTo text, tail) ∧
      outlined rules source tail = outlined rules source rest := by
  have hcast : ∀ u ∈ (skipOperand (t :: r)).head?, u.kind ≠ .doubleColon := by
    rw [hoperand]
    intro u hu he
    cases numeral with
    | nil =>
        obtain ⟨w, hw⟩ := kind_of_startsClause hrest u hu
        simp [hw] at he
    | cons v numeral =>
        obtain rfl : v = u := by simpa using hu
        have := hnumeral v (by simp)
        simp [he, isNumeralKind] at this
  obtain ⟨text, htext⟩ := defaultAttribute_operand rules source hsign hnext hcast
  refine ⟨text, _, htext, ?_⟩
  rw [hoperand, outlined_numeral hnumeral]

/-- A word that is a value ends the operand, and no literal or call follows. -/
theorem skipOperand_word {w : String} (ht : t.kind = .word w) (hrest : StartsClause d rest) :
    skipOperand (t :: rest) = rest := by
  have hliteral : introducesLiteral t rest = false := by
    cases rest with
    | nil => rfl
    | cons u rest =>
        obtain ⟨v, hv⟩ := kind_of_startsClause hrest u rfl
        simp [introducesLiteral, hv]
  simp [skipOperand, ht, hliteral, furtherNames_clause hrest, skipGroup_clause hrest]

/-- A call is an operand up to the end of its arguments. -/
theorem skipOperand_call {w : String} {opening closing : Token} {body : List Token}
    (ht : t.kind = .word w) (hopening : opening.kind = .lparen) (hclosing : closing.kind = .rparen)
    (hbody : IsBalanced (body.map Token.kind)) :
    skipOperand (t :: opening :: (body ++ closing :: rest)) = rest := by
  have hgroup : skipGroup (opening :: (body ++ closing :: rest)) = rest :=
    skipGroup_group hopening hclosing hbody
  have hnames : furtherNames (opening :: (body ++ closing :: rest)) =
      ([], opening :: (body ++ closing :: rest)) :=
    furtherNames_of_ne_dot (by simp [hopening])
  simp [skipOperand, ht, introducesLiteral, hopening, hnames, hgroup]

/-- A number with its sign is an operand, apart from the rest of it. -/
theorem operand_number {sign ks : List TokenKind} {k : TokenKind}
    (hsign : sign ∈ [[], [.symbol '+'], [.symbol '-']]) (hk : isOperandKind k)
    (h : value.map Token.kind = sign ++ k :: ks) (rest : List Token) :
    ∃ t numeral, skipSign (value ++ rest) = t :: (numeral ++ rest) ∧
      t.isKeyword "nextval" = false ∧ skipOperand (t :: (numeral ++ rest)) = numeral ++ rest ∧
      numeral.map Token.kind = ks := by
  obtain ⟨signs, r, rfl, hsigns, hr⟩ := List.map_eq_append_iff.1 h
  obtain ⟨t, numeral, rfl, ht, rfl⟩ := List.map_eq_cons_iff.1 hr
  subst ht
  have hoperand : skipOperand (t :: (numeral ++ rest)) = numeral ++ rest := by
    cases hkind : t.kind <;> simp_all [isOperandKind, skipOperand]
  have hnext : t.isKeyword "nextval" = false := by
    cases hkind : t.kind <;> simp_all [isOperandKind, isKeyword_eq, TokenKind.keyword?]
  refine ⟨t, numeral, ?_, hnext, hoperand, rfl⟩
  rw [List.append_assoc, List.cons_append]
  exact skipSign_signs hsign hsigns (ne_sign_of_isOperandKind hk)

/-- A value that is no number is one operand. -/
theorem operand_plain (h : PlainValue (value.map Token.kind)) (hrest : StartsClause d rest) :
    ∃ t r, skipSign (value ++ rest) = t :: r ∧ t.isKeyword "nextval" = false ∧
      skipOperand (t :: r) = rest := by
  suffices hfirst : ∃ t r, value ++ rest = t :: r ∧ (t.kind ≠ .symbol '-' ∧ t.kind ≠ .symbol '+') ∧
      t.isKeyword "nextval" = false ∧ skipOperand (t :: r) = rest by
    obtain ⟨t, r, he, hsign, hnext, hoperand⟩ := hfirst
    exact ⟨t, r, he ▸ skipSign_of_ne hsign, hnext, hoperand⟩
  generalize hk : value.map Token.kind = ks at h
  cases h with
  | literal text =>
      obtain ⟨t, rfl, ht⟩ := List.map_eq_singleton_iff.1 hk
      refine ⟨t, rest, rfl, by simp [ht], ?_, by simp [skipOperand, ht]⟩
      simp [isKeyword_eq, ht, TokenKind.keyword?]
  | @word w hw =>
      obtain ⟨t, rfl, ht⟩ := List.map_eq_singleton_iff.1 hk
      have table : ∀ w ∈ valueWords, (TokenKind.word w).keyword? ≠ some "nextval" := by decide
      refine ⟨t, rest, rfl, by simp [ht], ?_, skipOperand_word ht hrest⟩
      rw [isKeyword_eq, ht]
      simpa using table w hw
  | @call inner hinner =>
      obtain ⟨t, group, rfl, ht, hgroup⟩ := List.map_eq_cons_iff.1 hk
      obtain ⟨opening, body, closing, rfl, hopening, rfl, hclosing⟩ := exists_group_of_kinds hgroup
      have hbalanced : IsBalanced (body.map Token.kind) := (part_of_isNumeralKind hinner).balanced
      refine ⟨t, opening :: (body ++ closing :: rest), by simp, by simp [ht], ?_,
        skipOperand_call ht hopening hclosing hbalanced⟩
      rw [isKeyword_eq, ht]
      decide
  | group =>
      have hkinds : value.map Token.kind = .lparen :: ([.word "CURRENT_DATE"] ++ [.rparen]) := hk
      obtain ⟨opening, body, closing, rfl, hopening, hbody, hclosing⟩ := exists_group_of_kinds hkinds
      have hbalanced : IsBalanced (body.map Token.kind) := by
        rw [hbody]
        rfl
      refine ⟨opening, body ++ closing :: rest, by simp, by simp [hopening], ?_, ?_⟩
      · simp [isKeyword_eq, hopening, TokenKind.keyword?]
      · simp [skipOperand, hopening, skipGroup_group hopening hclosing hbalanced]

/-- **The value of a default is read to its end**, apart from the rest of a number. -/
theorem outlined_value (rules : Rules) (source : List Char)
    (h : ValueKinds (value.map Token.kind)) (hrest : StartsClause d rest) :
    ∃ text tail, defaultAttribute rules source (value ++ rest) = (.defaultTo text, tail) ∧
      outlined rules source tail = outlined rules source rest := by
  generalize hk : value.map Token.kind = ks at h
  cases h with
  | plain h =>
      subst hk
      obtain ⟨t, r, hsign, hnext, hoperand⟩ := operand_plain h hrest
      exact outlined_operand [] hsign hnext hoperand (by simp) hrest
  | @number sign k ks hsign hk' hks =>
      obtain ⟨t, numeral, hskip, hnext, hoperand, rfl⟩ := operand_number hsign hk' hk rest
      exact outlined_operand numeral hskip hnext hoperand
        (fun u hu => hks _ (List.mem_map_of_mem hu)) hrest

/-! ### Clauses -/

/-- What a clause says about the outline of its column. -/
def ColumnClause.attributes : ColumnClause → List Attribute
  | .notNull => [.notNull]
  | .primaryKey => [.primaryKey]
  | .autoIncrement => [.autoIncrement]
  | .defaultTo _ => []
  | .comment text => [.comment text]
  | .memberOf _ => [.dropped .check]

/-- The first word of a clause. -/
def ColumnClause.word : ColumnClause → String
  | .notNull => "NOT"
  | .primaryKey => "PRIMARY"
  | .autoIncrement => "AUTO_INCREMENT"
  | .defaultTo _ => "DEFAULT"
  | .comment _ => "COMMENT"
  | .memberOf _ => "CHECK"

theorem head?_clauseKinds (d : Dialect) (name : String) (valueKinds : List TokenKind)
    (clause : ColumnClause) :
    (clauseKinds d name valueKinds clause).head? = some (.word clause.word) := by
  cases clause <;> rfl

theorem isPlain_identKind (d : Dialect) (name : String) :
    isPlain (identKind d name) ∧ .semicolon ≠ identKind d name := by
  cases d with
  | mysql => exact ⟨rfl, by simp [identKind]⟩
  | postgresql =>
      unfold identKind nameKind
      dsimp only
      split <;> exact ⟨rfl, by simp⟩

/-- Members in parentheses. -/
theorem part_members (d : Dialect) (name : String) (members : List String) :
    IsPart ([identKind d name, .word "IN", .lparen] ++
      [.comma].intercalate (members.map ([.stringLit ·])) ++ [.rparen]) := by
  have hlist : IsBalanced ([TokenKind.comma].intercalate (members.map ([.stringLit ·]))) := by
    apply balanced_intercalate
    intro ks hks
    obtain ⟨member, -, rfl⟩ := List.mem_map.1 hks
    exact balanced_nil
  simpa using (hlist.group.cons (k := .word "IN") rfl).cons (isPlain_identKind d name).1

/-- A clause stands in one definition. -/
theorem part_clauseKinds {name : String} {valueKinds : List TokenKind}
    (hvalue : ValueKinds valueKinds) (clause : ColumnClause) :
    IsPart (clauseKinds d name valueKinds clause) ∧
      .semicolon ∉ clauseKinds d name valueKinds clause := by
  cases clause with
  | defaultTo text =>
      obtain ⟨hpart, hsemicolon⟩ := hvalue.part
      exact ⟨hpart.cons rfl, by simp [clauseKinds, hsemicolon]⟩
  | memberOf members =>
      have hsemicolon : TokenKind.semicolon ∉
          [TokenKind.comma].intercalate (members.map ([.stringLit ·])) :=
        semicolon_notMem_intercalate (by simp)
      refine ⟨?_, by simp [clauseKinds, hsemicolon, (isPlain_identKind d name).2]⟩
      have hgroup := (part_members d name members).balanced.group
      simpa [clauseKinds] using hgroup.cons (k := .word "CHECK") rfl
  | notNull => exact ⟨part_nil, by simp [clauseKinds]⟩
  | primaryKey => exact ⟨part_nil, by simp [clauseKinds]⟩
  | autoIncrement => exact ⟨part_nil, by simp [clauseKinds]⟩
  | comment text => exact ⟨part_nil, by simp [clauseKinds]⟩

/-- The attribute that a clause is written for. -/
def ColumnClause.attribute : ColumnClause → Attribute
  | .notNull => .notNull
  | .primaryKey => .primaryKey
  | .autoIncrement => .autoIncrement
  | .defaultTo text => .defaultTo text
  | .comment text => .comment text
  | .memberOf _ => .dropped .check

/-- Only the default of a column does not show in its outline. -/
theorem attributes_of_ne {clause : ColumnClause} (h : ∀ text, clause ≠ .defaultTo text) :
    clause.attributes = [clause.attribute] ∧ clause.attribute.isOutlined := by
  cases clause with
  | defaultTo text => exact absurd rfl (h text)
  | _ => exact ⟨rfl, rfl⟩

theorem keyword?_word {w : String} (ht : t.kind = .word w) : t.keyword? = some (asciiLower w) := by
  rw [keyword?_eq, ht]
  rfl

/-- A clause that is no default is read as what it says. -/
theorem readAttribute_clause (rules : Rules) (source : List Char) {name : String}
    {valueKinds : List TokenKind} {clause : ColumnClause}
    (hvalue : ∀ text, clause ≠ .defaultTo text)
    (h : ts.map Token.kind = clauseKinds d name valueKinds clause) :
    ∃ t r, ts = t :: r ∧
      ∀ rest, readAttribute rules source t (r ++ rest) = (clause.attribute, rest) := by
  cases clause with
  | notNull =>
      obtain ⟨t, u, rfl, ht, hu⟩ := exists_pair_of_kinds h
      have hnull : u.isKeyword "null" = true := by
        rw [isKeyword_eq, hu]
        decide
      exact ⟨t, [u], rfl, fun rest => readAttribute_not (keyword?_word ht) hnull⟩
  | primaryKey =>
      obtain ⟨t, u, rfl, ht, hu⟩ := exists_pair_of_kinds h
      have hkey : u.isKeyword "key" = true := by
        rw [isKeyword_eq, hu]
        decide
      exact ⟨t, [u], rfl, fun rest => readAttribute_primary (keyword?_word ht) hkey⟩
  | autoIncrement =>
      obtain ⟨t, rfl, ht⟩ := List.map_eq_singleton_iff.1 h
      exact ⟨t, [], rfl, fun rest => readAttribute_autoIncrement (keyword?_word ht)⟩
  | defaultTo text => exact absurd rfl (hvalue text)
  | comment text =>
      obtain ⟨t, u, rfl, ht, hu⟩ := exists_pair_of_kinds h
      refine ⟨t, [u], rfl, fun rest => ?_⟩
      rw [readAttribute_comment (keyword?_word ht)]
      simp [commentAttribute, Token.string?, hu, ColumnClause.attribute]
  | memberOf members =>
      obtain ⟨t, group, rfl, ht, hgroup⟩ := List.map_eq_cons_iff.1 h
      have hkinds : group.map Token.kind = .lparen :: (([identKind d name, .word "IN", .lparen] ++
          [.comma].intercalate (members.map ([.stringLit ·])) ++ [.rparen]) ++ [.rparen]) := by
        rw [hgroup]
        simp
      obtain ⟨opening, body, closing, rfl, hopening, hbody, hclosing⟩ := exists_group_of_kinds hkinds
      refine ⟨t, opening :: (body ++ [closing]), rfl, fun rest => ?_⟩
      have hbalanced : IsBalanced (body.map Token.kind) := by
        rw [hbody]
        exact (part_members d name members).balanced
      rw [List.cons_append, List.append_assoc, List.singleton_append,
        readAttribute_check (keyword?_word ht), skipGroup_group hopening hclosing hbalanced]
      rfl

/-- **A written clause is read** as what it says. -/
theorem outlined_clause {name : String} {valueKinds : List TokenKind} {clause : ColumnClause}
    (hvalue : ValueKinds valueKinds) (h : ts.map Token.kind = clauseKinds d name valueKinds clause)
    (hrest : StartsClause d rest) :
    outlined rules source (ts ++ rest) = clause.attributes ++ outlined rules source rest := by
  by_cases hdefault : ∃ text, clause = .defaultTo text
  · obtain ⟨text, rfl⟩ := hdefault
    obtain ⟨t, value, rfl, ht, rfl⟩ := List.map_eq_cons_iff.1 h
    obtain ⟨text, tail, hdefault, htail⟩ := outlined_value rules source hvalue hrest
    have hread : readAttribute rules source t (value ++ rest) = (.defaultTo text, tail) := by
      rw [readAttribute_default (keyword?_word ht), hdefault]
    simp [outlined_cons, hread, Attribute.isOutlined, ColumnClause.attributes, htail]
  · have hplain : ∀ text, clause ≠ .defaultTo text := by simpa using hdefault
    obtain ⟨t, r, rfl, hread⟩ := readAttribute_clause rules source hplain h
    obtain ⟨hattributes, houtlined⟩ := attributes_of_ne hplain
    rw [List.cons_append, outlined_cons, hread, if_pos houtlined, hattributes]

/-- A clause starts with its word. -/
theorem startsClause_clause {name : String} {valueKinds : List TokenKind} {clause : ColumnClause}
    (hword : clause.word ∈ clauseWords d)
    (h : ts.map Token.kind = clauseKinds d name valueKinds clause) : StartsClause d (ts ++ rest) := by
  have hhead := head?_clauseKinds d name valueKinds clause
  rw [← h, List.head?_map] at hhead
  obtain ⟨t, ht, hkind⟩ := Option.map_eq_some_iff.1 hhead
  intro u hu
  obtain rfl : t = u := by
    rw [List.head?_append, ht] at hu
    simpa using hu
  exact ⟨clause.word, hword, hkind⟩

/-- **The clauses of a declaration** are read in order. -/
theorem outlined_clauses (rules : Rules) (source : List Char) {name : String}
    {valueKinds : List TokenKind} {clauses : List ColumnClause}
    (hvalue : ValueKinds valueKinds) (hwords : ∀ clause ∈ clauses, clause.word ∈ clauseWords d)
    (h : ts.map Token.kind = clauses.flatMap (clauseKinds d name valueKinds)) :
    StartsClause d ts ∧ outlined rules source ts = clauses.flatMap ColumnClause.attributes := by
  induction clauses generalizing ts with
  | nil =>
      obtain rfl : ts = [] := by simpa using h
      exact ⟨startsClause_nil, outlined_nil⟩
  | cons clause clauses ih =>
      rw [List.flatMap_cons] at h
      obtain ⟨us, rest, rfl, hus, hrest⟩ := List.map_eq_append_iff.1 h
      obtain ⟨hstarts, hattributes⟩ := ih (fun c hc => hwords c (by simp [hc])) hrest
      constructor
      · exact startsClause_clause (hwords clause (by simp)) hus
      · rw [outlined_clause hvalue hus hstarts, hattributes, List.flatMap_cons]

end Schemata.Ddl
