import Schemata.Proofs.Ddl.Tokens

/-! # Written statements are read

What is read from tokens of the kinds that the statements of a conversion have: the statement that
creates a table is read to the end of its body and its options (`createTable_written`), and comment
statements are read as what they say (`ofTokens?_written`). -/

namespace Schemata.Sql

open Schemata.Text

variable {t u : Token} {ts us : List Token}

/-! ### Words -/

/-- The keyword that a token of this kind is. -/
def TokenKind.keyword? : TokenKind → Option String
  | .word text => some (asciiLower text)
  | _ => none

theorem keyword?_eq (t : Token) : t.keyword? = t.kind.keyword? := by
  unfold Token.keyword? Token.word? TokenKind.keyword?
  cases t.kind <;> rfl

theorem isKeyword_eq (t : Token) (k : String) : t.isKeyword k = (t.kind.keyword? == some k) := by
  rw [Token.isKeyword, keyword?_eq]

theorem keyword?_of_kind {k : TokenKind} {w : String} (ht : t.kind = k) (hk : k.keyword? = some w) :
    t.keyword? = some w := by
  rw [keyword?_eq, ht, hk]

theorem isKeyword_of_kind {k : TokenKind} {w : String} (ht : t.kind = k)
    (hk : k.keyword? = some w) : t.isKeyword w := by
  rw [isKeyword_eq, ht, hk, beq_self_eq_true]

theorem isOneOf_eq (t : Token) (ks : List String) :
    t.isOneOf ks = ks.any (t.kind.keyword? == some ·) := by
  rw [Token.isOneOf]
  congr 1
  funext k
  exact isKeyword_eq t k

theorem afterWords_neg {k : String} {words : List String} (h : t.isKeyword k = false) :
    afterWords (k :: words) (t :: ts) = none := by
  rw [afterWords, if_neg (by simp [h])]

theorem furtherNames_of_ne_dot (h : t.kind ≠ .dot) : furtherNames (t :: ts) = ([], t :: ts) := by
  cases ts with
  | nil => simp [furtherNames]
  | cons u us =>
      rw [furtherNames]
      split
      · rw [if_neg h]
      · rfl

/-! ### Options -/

theorem optionComment_nil : optionComment [] = none := by
  rw [optionComment]

theorem optionComment_of_ne (h : t.isKeyword "comment" = false) :
    optionComment (t :: ts) = optionComment ts := by
  rw [optionComment, if_neg (by simp [h])]

end Schemata.Sql

namespace Schemata.Ddl

open Schemata.Sql Schemata.Text

variable {d : Dialect} {ts : List Token}

theorem optionComment_commentOption {comment : Option String}
    (h : ts.map Token.kind = commentOptionKinds comment) : optionComment ts = comment := by
  cases comment with
  | none =>
      obtain rfl : ts = [] := by simpa [commentOptionKinds] using h
      exact optionComment_nil
  | some text =>
      obtain ⟨t, r₁, rfl, ht, h₁⟩ := List.map_eq_cons_iff.1 h
      obtain ⟨u, v, rfl, hu, hv⟩ := exists_pair_of_kinds h₁
      have hword : t.isKeyword "comment" = true := by
        rw [isKeyword_eq, ht]
        decide
      rw [optionComment, if_pos hword]
      simp [skipEquals, hu, Token.string?, hv, optionComment_nil]

/-- The options of a table give its comment. -/
theorem optionComment_written {engine : Bool} {comment : Option String}
    (h : ts.map Token.kind = engineKinds engine ++ commentOptionKinds comment) :
    optionComment ts = comment := by
  have skip : ∀ ks ls, (∀ k ∈ ks, k.keyword? ≠ some "comment") →
      ∀ ts : List Token, ts.map Token.kind = ks ++ ls →
        ∃ us : List Token, optionComment ts = optionComment us ∧ us.map Token.kind = ls := by
    intro ks ls hks
    induction ks with
    | nil => exact fun ts hts => ⟨ts, rfl, hts⟩
    | cons k ks ih =>
        intro ts hts
        obtain ⟨t, r, rfl, rfl, hr⟩ := List.map_eq_cons_iff.1 hts
        obtain ⟨us, hus, hkinds⟩ := ih (fun k hk => hks k (by simp [hk])) r hr
        have hne : t.isKeyword "comment" = false := by
          rw [isKeyword_eq]
          simpa using hks t.kind (by simp)
        exact ⟨us, by rw [optionComment_of_ne hne, hus], hkinds⟩
  have plain : ∀ k ∈ engineKinds engine, k.keyword? ≠ some "comment" := by
    cases engine <;> decide
  obtain ⟨us, hus, hkinds⟩ := skip _ _ plain ts h
  rw [hus, optionComment_commentOption hkinds]

/-! ### Tables -/

/-- The kinds of the tokens before the body of a table. -/
def headKinds (d : Dialect) (name : String) : List TokenKind :=
  [.word "CREATE", .word "TABLE", identKind d name, .lparen]

/-- The kinds of the tokens after the body of a table. -/
def tailKinds (t : CreateTable) : List TokenKind :=
  .rparen :: (engineKinds t.engine ++ commentOptionKinds t.comment)

theorem createKinds_eq (d : Dialect) (t : CreateTable) (kss : List (List TokenKind)) :
    createKinds d t kss = headKinds d t.name ++ ([.comma].intercalate kss ++ tailKinds t) := rfl

/-- A table is read from what stands before its body, the body, and what follows it. -/
theorem createTable_parts {t : CreateTable} {head body tail : List Token} (hname : t.name ≠ "")
    (hhead : head.map Token.kind = headKinds d t.name) (hbody : IsBalanced (body.map Token.kind))
    (htail : tail.map Token.kind = tailKinds t) :
    ∃ after, afterCreateTable (head ++ (body ++ tail)) = some after ∧
      ∀ rules source, createTable rules source (head ++ (body ++ tail)) after =
        .ok { tableOf rules source t.name body with tableComment := t.comment.getD "" } := by
  obtain ⟨create, r₁, rfl, hcreate, h₁⟩ := List.map_eq_cons_iff.1 hhead
  obtain ⟨table, r₂, rfl, htable, h₂⟩ := List.map_eq_cons_iff.1 h₁
  obtain ⟨name, opening, rfl, hident, hopening⟩ := exists_pair_of_kinds h₂
  obtain ⟨closing, options, rfl, hclosing, hoptions⟩ := List.map_eq_cons_iff.1 htail
  simp only [List.cons_append, List.nil_append]
  have hafter : afterCreateTable (create :: table :: name :: opening :: (body ++ closing :: options)) =
      some (name :: opening :: (body ++ closing :: options)) := by
    have h₁ : create.isKeyword "create" = true := by
      rw [isKeyword_eq, hcreate]
      decide
    have h₂ : table.isOneOf tableModifiers = false ∧ table.isKeyword "table" = true := by
      rw [isOneOf_eq, isKeyword_eq, htable]
      decide
    simp [afterCreateTable, afterWords, h₁, h₂]
  refine ⟨_, hafter, fun rules source => ?_⟩
  have hnot : opening.isKeyword "not" = false := by
    rw [isKeyword_eq, hopening]
    rfl
  have hheader : afterWords ["if", "not", "exists"]
      (name :: opening :: (body ++ closing :: options)) = none := by
    rw [afterWords]
    split
    · exact afterWords_neg hnot
    · rfl
  have hqualified : qualifiedName? (name :: opening :: (body ++ closing :: options)) =
      some ([t.name], opening :: (body ++ closing :: options)) := by
    rw [qualifiedName?, furtherNames_of_ne_dot (by simp [hopening]), ident?_identKind d hident]
    rfl
  have hclose : closingFrom 1 (body ++ closing :: options) = some body.length :=
    closingFrom_one_eq_some.2 ⟨body, closing, options, rfl, rfl, hclosing, hbody⟩
  have hcomment := optionComment_written hoptions
  simp only [createTable, hheader, Option.getD_none, hqualified, List.getLastD_cons]
  simp [hname, hopening, hclose, hcomment]

/-- **A written table is read** with its name, the tokens of its elements and its comment. -/
theorem createTable_written {t : CreateTable} {kss : List (List TokenKind)} (hname : t.name ≠ "")
    (hbalanced : ∀ ks ∈ kss, IsBalanced ks) (h : ts.map Token.kind = createKinds d t kss) :
    ∃ after body, afterCreateTable ts = some after ∧
      body.map Token.kind = [.comma].intercalate kss ∧
      ∀ rules source, createTable rules source ts after =
        .ok { tableOf rules source t.name body with tableComment := t.comment.getD "" } := by
  rw [createKinds_eq] at h
  obtain ⟨head, r, rfl, hhead, hr⟩ := List.map_eq_append_iff.1 h
  obtain ⟨body, tail, rfl, hbody, htail⟩ := List.map_eq_append_iff.1 hr
  obtain ⟨after, hafter, htable⟩ :=
    createTable_parts hname hhead (hbody ▸ balanced_intercalate hbalanced) htail
  exact ⟨after, body, hafter, hbody, htable⟩

/-! ### Comments -/

/-- What a comment statement gives its comment to. -/
def CommentOn.target (c : CommentOn) : CommentTarget :=
  match c.column with
  | none => .table c.table
  | some column => .column c.table column

/-- **A written comment is read** with its target and its text. -/
theorem ofTokens?_written (c : CommentOn) (h : ts.map Token.kind = commentKinds c) :
    Comment.ofTokens? ts = some ⟨c.target, some c.comment⟩ := by
  obtain ⟨comment, r₁, rfl, hcomment, h₁⟩ := List.map_eq_cons_iff.1 h
  obtain ⟨on, r₂, rfl, hon, h₂⟩ := List.map_eq_cons_iff.1 h₁
  obtain ⟨object, r₃, rfl, hobject, h₃⟩ := List.map_eq_append_iff.1 h₂
  obtain ⟨is, r₄, rfl, his, h₄⟩ := List.map_eq_cons_iff.1 h₃
  obtain ⟨value, r₅, rfl, hvalue, h₅⟩ := List.map_eq_cons_iff.1 h₄
  have hwords : comment.isKeyword "comment" = true ∧ on.isKeyword "on" = true ∧
      is.isKeyword "is" = true := by
    rw [isKeyword_eq, isKeyword_eq, isKeyword_eq, hcomment, hon, his]
    decide
  have hvalue' : commentText? value = some (some c.comment) := by
    simp [commentText?, hvalue]
  have hisdot : is.kind ≠ .dot := by simp [his]
  have hlast : furtherNames (is :: value :: r₅) = ([], is :: value :: r₅) :=
    furtherNames_of_ne_dot hisdot
  obtain ⟨table, column, text⟩ := c
  cases column with
  | none =>
      obtain ⟨word, name, rfl, hword, hname⟩ := exists_pair_of_kinds hobject
      have hkey : word.isKeyword "table" = true := by
        rw [isKeyword_eq, hword]
        decide
      have hident : name.ident? = some table := by simp [Token.ident?, hname]
      simp [Comment.ofTokens?, afterWords, hwords, hkey, qualifiedName?, hident, hlast, hvalue',
        commentTarget?, CommentOn.target]
  | some column =>
      obtain ⟨word, s₁, rfl, hword, hs₁⟩ := List.map_eq_cons_iff.1 hobject
      obtain ⟨name, s₂, rfl, hname, hs₂⟩ := List.map_eq_cons_iff.1 hs₁
      obtain ⟨dot, inner, rfl, hdot, hinner⟩ := exists_pair_of_kinds hs₂
      have hkey : word.isKeyword "table" = false ∧ word.isKeyword "column" = true := by
        rw [isKeyword_eq, isKeyword_eq, hword]
        decide
      have hident : name.ident? = some table ∧ inner.ident? = some column := by
        simp [Token.ident?, hname, hinner]
      have hfurther : furtherNames (dot :: inner :: is :: value :: r₅) =
          ([column], is :: value :: r₅) := by
        rw [furtherNames, hident.2]
        simp [hdot, hlast]
      simp [Comment.ofTokens?, afterWords, hwords, hkey, qualifiedName?, hident, hfurther, hvalue',
        commentTarget?, CommentOn.target]

/-- A comment statement creates no table. -/
theorem afterCreateTable_comment {c : CommentOn} (h : ts.map Token.kind = commentKinds c) :
    afterCreateTable ts = none := by
  obtain ⟨comment, r₁, rfl, hcomment, -⟩ := List.map_eq_cons_iff.1 h
  have : comment.isKeyword "create" = false := by
    rw [isKeyword_eq, hcomment]
    decide
  rw [afterCreateTable, afterWords_neg this]

/-- A statement that creates a table gives no comment. -/
theorem ofTokens?_create {t : CreateTable} {kss : List (List TokenKind)}
    (h : ts.map Token.kind = createKinds d t kss) : Comment.ofTokens? ts = none := by
  obtain ⟨create, r₁, rfl, hcreate, -⟩ := List.map_eq_cons_iff.1 h
  have : create.isKeyword "comment" = false := by
    rw [isKeyword_eq, hcreate]
    decide
  rw [Comment.ofTokens?, afterWords_neg this]
  rfl

/-! ### Scripts -/

/-- Kinds that stand in one statement and leave no parenthesis open. -/
structure Closed (ks : List TokenKind) : Prop where
  balanced : IsBalanced ks
  oneStatement : .semicolon ∉ ks

/-- A conversion whose elements give tokens of the kinds `kss` in the dialect that it is written
for. -/
structure Written (d : Dialect) (c : Conversion) (kss : List (List TokenKind)) : Prop where
  name : c.create.name ≠ ""
  comments : d = .postgresql ∨ c.comments = []
  elements : List.Forall₂ (fun e ks => Gives d (e.text (spellingOf d)).toList ks)
    c.create.elements kss
  closed : ∀ ks ∈ kss, Closed ks

/-- The kinds of the statements of a conversion. -/
def conversionKinds (d : Dialect) (p : Conversion × List (List TokenKind)) :
    List (List TokenKind) :=
  createKinds d p.1.create p.2 :: p.1.comments.map commentKinds

theorem semicolon_notMem_intercalate {kss : List (List TokenKind)}
    (h : ∀ ks ∈ kss, .semicolon ∉ ks) : .semicolon ∉ [TokenKind.comma].intercalate kss := by
  rw [mem_intercalate_iff (by simp)]
  rintro ⟨ks, hks, hmem⟩
  exact h ks hks hmem

theorem conversionKinds_statement {p : Conversion × List (List TokenKind)}
    (h : Written d p.1 p.2) : ∀ ks ∈ conversionKinds d p, .semicolon ∉ ks ∧ ks ≠ [] := by
  have hident : ∀ name, TokenKind.semicolon ≠ identKind d name := by
    intro name
    cases d with
    | mysql => simp [identKind]
    | postgresql =>
        unfold identKind nameKind
        dsimp only
        split <;> simp
  intro ks hks
  rcases List.mem_cons.1 hks with rfl | hks
  · have hbody := semicolon_notMem_intercalate fun ks hks => (h.closed ks hks).oneStatement
    have hengine : TokenKind.semicolon ∉ engineKinds p.1.create.engine := by
      cases p.1.create.engine <;> decide
    have hcomment : TokenKind.semicolon ∉ commentOptionKinds p.1.create.comment := by
      cases p.1.create.comment <;> simp [commentOptionKinds]
    simp [createKinds, hident, hbody, hengine, hcomment]
  · obtain ⟨comment, -, rfl⟩ := List.mem_map.1 hks
    cases hc : comment.column <;> simp [commentKinds, hc]

/-- Statements that create no table are passed over. -/
theorem tablesOf_skip {rules : Rules} {source : List Char} {sts rest : List (List Token)}
    (h : ∀ st ∈ sts, afterCreateTable st = none) :
    tablesOf rules source (sts ++ rest) = tablesOf rules source rest := by
  induction sts with
  | nil => rfl
  | cons st sts ih =>
      rw [List.cons_append, tablesOf, h st (by simp)]
      exact ih fun st hst => h st (by simp [hst])

/-- A script whose first statement alone creates a table. -/
theorem tablesOf_single {rules : Rules} {source : List Char} {st after : List Token}
    {sts : List (List Token)} {t : Table} (hafter : afterCreateTable st = some after)
    (htable : createTable rules source st after = .ok t) (h : ∀ st ∈ sts, afterCreateTable st = none) :
    tablesOf rules source (st :: sts) = .ok [t] := by
  have hskip : tablesOf rules source (sts ++ []) = .ok [] := tablesOf_skip h
  rw [List.append_nil] at hskip
  rw [tablesOf, hafter]
  simp only [htable, hskip]
  rfl

/-- What a comment statement says. -/
def CommentOn.read (c : CommentOn) : Comment := ⟨c.target, some c.comment⟩

/-- The comments of statements are heard, since MySQL writes none. -/
theorem commentsOf_of_given {cs : List CommentOn} {sts : List (List Token)}
    (hcomments : d = .postgresql ∨ cs = [])
    (h : sts.filterMap Comment.ofTokens? = cs.map CommentOn.read) :
    commentsOf (rulesOf d) sts = cs.map CommentOn.read := by
  rw [commentsOf, h]
  rcases hcomments with rfl | rfl
  · rfl
  · split <;> rfl

/-- Comment statements give their comments and create nothing. -/
theorem comments_written {cs : List CommentOn} {sts : List (List Token)}
    (h : sts.map (·.map Token.kind) = cs.map commentKinds) :
    sts.filterMap Comment.ofTokens? = cs.map CommentOn.read ∧
      ∀ st ∈ sts, afterCreateTable st = none := by
  induction cs generalizing sts with
  | nil =>
      obtain rfl : sts = [] := by simpa using h
      exact ⟨rfl, by simp⟩
  | cons c cs ih =>
      obtain ⟨st, rest, rfl, hst, hrest⟩ := List.map_eq_cons_iff.1 h
      obtain ⟨hgiven, hnone⟩ := ih hrest
      constructor
      · rw [List.filterMap_cons, ofTokens?_written c hst, hgiven]
        rfl
      · intro st' hmem
        rcases List.mem_cons.1 hmem with rfl | hmem
        · exact afterCreateTable_comment hst
        · exact hnone st' hmem

/-- The table that is read from tokens of a written body. -/
def Reads (d : Dialect) (source : List Char) (p : Conversion × List (List TokenKind))
    (table : Table) : Prop :=
  ∃ body : List Token, body.map Token.kind = [.comma].intercalate p.2 ∧
    table = { tableOf (rulesOf d) source p.1.create.name body with
      tableComment := p.1.create.comment.getD "" }

/-- The tables and comments of written statements. -/
theorem tablesOf_written {ps : List (Conversion × List (List TokenKind))}
    (h : ∀ p ∈ ps, Written d p.1 p.2) (source : List Char) {sts : List (List Token)}
    (hsts : sts.map (·.map Token.kind) = ps.flatMap (conversionKinds d)) :
    (∃ tables, tablesOf (rulesOf d) source sts = .ok tables ∧
      List.Forall₂ (Reads d source) ps tables) ∧
    sts.filterMap Comment.ofTokens? = (ps.flatMap (·.1.comments)).map CommentOn.read := by
  induction ps generalizing sts with
  | nil =>
      obtain rfl : sts = [] := by simpa using hsts
      exact ⟨⟨[], rfl, .nil⟩, rfl⟩
  | cons p ps ih =>
      have hp := h p (by simp)
      rw [List.flatMap_cons, conversionKinds, List.cons_append] at hsts
      obtain ⟨create, r, rfl, hcreate, hr⟩ := List.map_eq_cons_iff.1 hsts
      obtain ⟨comments, rest, rfl, hcomments, hrest⟩ := List.map_eq_append_iff.1 hr
      obtain ⟨⟨tables, htables, hreads⟩, hgiven⟩ := ih (fun p hp => h p (by simp [hp])) hrest
      have hspoken := comments_written hcomments
      obtain ⟨after, body, hafter, hbody, htable⟩ := createTable_written hp.name
        (fun ks hks => (hp.closed ks hks).balanced) hcreate
      refine ⟨⟨_ :: tables, ?_, .cons ⟨body, hbody, rfl⟩ hreads⟩, ?_⟩
      · rw [tablesOf, hafter]
        simp only [htable, tablesOf_skip hspoken.2, htables]
        rfl
      · rw [List.filterMap_cons, ofTokens?_create hcreate, List.filterMap_append, hspoken.1, hgiven,
          List.flatMap_cons, List.map_append]

/-- **Written scripts are read**: the tables are those of the conversions, in order, and are given
the comments of all of them. -/
theorem parseAll_written (ps : List (Conversion × List (List TokenKind))) (hne : ps ≠ [])
    (h : ∀ p ∈ ps, Written d p.1 p.2) :
    ∃ source tables, List.Forall₂ (Reads d source) ps tables ∧
      parseAll d ("\n".intercalate (ps.map fun p => p.1.text (spellingOf d))) =
        .ok (((ps.flatMap (·.1.comments)).map CommentOn.read).foldl
          (fun ts c => c.applyAmong ts) tables) := by
  have hgives : Gives d ("\n".intercalate (ps.map fun p => p.1.text (spellingOf d))).toList
      (scriptKinds (ps.flatMap (conversionKinds d))) := by
    rw [List.flatMap_def]
    exact gives_lines (forall₂_map fun p hp => gives_conversion (h p hp).comments (h p hp).elements)
  obtain ⟨tokens, htokens, hkinds⟩ := hgives.tokenize
  have hsts := map_kind_statements (fun ks hks => by
    obtain ⟨p, hp, hks⟩ := List.mem_flatMap.1 hks
    exact conversionKinds_statement (h p hp) ks hks) hkinds
  obtain ⟨⟨tables, htables, hreads⟩, hcomments⟩ :=
    tablesOf_written h ("\n".intercalate (ps.map fun p => p.1.text (spellingOf d))).toList hsts
  refine ⟨_, tables, hreads, ?_⟩
  have hheard : d = .postgresql ∨ ps.flatMap (·.1.comments) = [] := by
    rw [List.flatMap_eq_nil_iff, or_iff_not_imp_left]
    exact fun hd p hp => (h p hp).comments.resolve_left hd
  have hgiven := commentsOf_of_given hheard hcomments
  have hsome : tables ≠ [] := by
    rintro rfl
    cases hreads
    exact hne rfl
  obtain ⟨table, rest, rfl⟩ := List.exists_cons_of_ne_nil hsome
  simp only [parseAll, htokens, tablesOfTokens, htables, hgiven]

end Schemata.Ddl
