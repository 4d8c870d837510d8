import Schemata.Proofs.Ddl.Columns

/-! # Written tables are read in full

The statement that creates a table falls apart into what stands before its body, the elements of the
body, and what follows it (`exists_parts`).  So a conversion whose elements are read in full is
read as exactly the table of their definitions, with the comments of its statements
(`parseAll_readsAs`). -/

namespace Schemata.Ddl

open Schemata.Sql Schemata.Text

variable {d : Dialect} {source pre : List Char} {ts : List Token}

/-! ### Texts -/

/-- The text before the body of a table. -/
def headText (d : Dialect) (name : String) : List Char :=
  ("CREATE TABLE " ++ (spellingOf d).name name ++ " (").toList

theorem headText_eq (d : Dialect) (name : String) :
    headText d name = "CREATE".toList ++ ' ' :: ("TABLE".toList ++ ' ' ::
      (((spellingOf d).name name).toList ++ ' ' :: ['('])) := by
  have create : "CREATE TABLE ".toList = "CREATE".toList ++ ' ' :: ("TABLE".toList ++ [' ']) := rfl
  have opening : " (".toList = [' ', '('] := rfl
  rw [headText, String.toList_append, String.toList_append, create, opening]
  simp only [List.append_assoc, List.cons_append, List.nil_append]

/-- The elements of a table, with a comma between each two. -/
def bodyText (d : Dialect) (elements : List TableElement) : List Char :=
  (",\n".intercalate (elements.map ("    " ++ ·.text (spellingOf d)))).toList

/-- The text after the body of a table. -/
def tailText (d : Dialect) (t : CreateTable) : List Char :=
  '\n' :: ')' :: (t.options (spellingOf d)).toList

/-- The text of comment statements, each on a line of its own. -/
def commentsText (comments : List CommentOn) : List Char :=
  comments.flatMap fun c => '\n' :: c.text.toList

theorem toList_conversion (d : Dialect) (c : Conversion) :
    (c.text (spellingOf d)).toList =
      headText d c.create.name ++ '\n' :: (bodyText d c.create.elements ++
        (tailText d c.create ++ ';' :: commentsText c.comments)) := by
  have hsep : "\n".toList = ['\n'] := rfl
  rw [Conversion.text, String.toList_intercalate, hsep, List.map_cons, intercalate_singleton_cons,
    toList_createTable, headText_eq]
  simp only [bodyText, tailText, commentsText, List.flatMap_map, List.append_assoc,
    List.cons_append, List.nil_append]

theorem gives_head (d : Dialect) (name : String) :
    Gives d (headText d name) (headKinds d name) := by
  have hopening : Gives d ['('] [.lparen] := Gives.nil.punct rfl
  rw [headText_eq]
  exact (gives_word "CREATE" (by decide)).spaced ((gives_word "TABLE" (by decide)).spaced
    ((gives_name d name).spaced hopening))

theorem gives_tail (d : Dialect) (t : CreateTable) : Gives d (tailText d t) (tailKinds t) := by
  have hoptions := gives_options (d := d) t Gives.nil separated_nil
  rw [List.append_nil, List.append_nil] at hoptions
  exact (hoptions.punct (c := ')') rfl).blank (by decide)

theorem separated_commentsText (comments : List CommentOn) :
    Separated (commentsText comments) := by
  cases comments with
  | nil => exact separated_nil
  | cons c comments => exact separated_cons.2 (by decide)

theorem gives_comments (comments : List CommentOn) :
    Gives .postgresql (commentsText comments) (scriptKinds (comments.map commentKinds)) := by
  induction comments with
  | nil => exact .nil
  | cons c comments ih =>
      exact ((gives_commentOn c).append ih (separated_commentsText comments)).blank (by decide)

/-! ### Statements -/

/-- **A written table falls apart** into its tokens before the body, those of the body, whose
definitions stand where their texts do, and those after it. -/
theorem exists_parts {t : CreateTable} {kss : List (List TokenKind)} {rest : List Char}
    (hgives : List.Forall₂ (fun e ks => Gives d (e.text (spellingOf d)).toList ks) t.elements kss)
    (hpart : ∀ ks ∈ kss, IsPart ks ∧ ks ≠ [])
    (h : Stands d source pre (headText d t.name ++ '\n' :: (bodyText d t.elements ++
      (tailText d t ++ ';' :: rest))) ts) :
    ∃ head body tail semicolon us pre', ts = head ++ (body ++ (tail ++ semicolon :: us)) ∧
      head.map Token.kind = headKinds d t.name ∧
      body.map Token.kind = [.comma].intercalate kss ∧ tail.map Token.kind = tailKinds t ∧
      semicolon.kind = .semicolon ∧
      List.Forall₂ (fun e => StandsSomewhere d source (e.text (spellingOf d)).toList) t.elements
        (splitDefinitions body) ∧
      Stands d source pre' rest us := by
  have newline : '\n' ∈ separators := by decide
  have stop : ';' ∈ separators := by decide
  obtain ⟨head, r₁, rfl, hhead, h₁⟩ := h.split (gives_head d t.name) (separated_cons.2 newline)
  obtain ⟨body, r₂, rfl, hbody, h₂⟩ := (h₁.blank (by decide)).split (gives_elements hgives)
    (separated_cons.2 newline)
  obtain ⟨tail, r₃, rfl, htail, h₃⟩ := h₂.split (gives_tail d t) (separated_cons.2 stop)
  have hsemicolon : punctuation.lookup ';' = some .semicolon := rfl
  obtain ⟨us, rfl, hus⟩ := h₃.punct hsemicolon
  refine ⟨head, body, tail, _, us, _, rfl, hhead.kinds (gives_head d t.name),
    hbody.kinds (gives_elements hgives), htail.kinds (gives_tail d t), rfl, ?_, hus⟩
  have hsep : ",\n".toList = [',', '\n'] := rfl
  rw [bodyText, String.toList_intercalate, hsep] at hbody
  have hgap : ∀ c ∈ ['\n'], isBlank c := by decide
  have hall := hbody.definitions hgap (gives_indented hgives) hpart
  rw [List.map_map, List.forall₂_map_left_iff] at hall
  refine hall.imp ?_
  rintro e ts ⟨pre', hs⟩
  have hindent : ∀ c ∈ "    ".toList, isBlank c := by decide
  exact Stands.afterBlanks (by simpa using hs) hindent

/-- A statement before a semicolon is the first one. -/
theorem statements_cons {semicolon : Token} {us : List Token} (hne : ts ≠ [])
    (hts : .semicolon ∉ ts.map Token.kind) (hsemicolon : semicolon.kind = .semicolon) :
    statements (ts ++ semicolon :: us) = ts :: statements us := by
  rw [statements, split_append hts, statements.split, if_pos hsemicolon]
  simp [beforeFirst, hne, statements]

/-- The kinds of elements that are read. -/
theorem kinds_of_readsAs {elements : List TableElement} {definitions : List Definition}
    (h : List.Forall₂ (fun e => ReadsAs d (e.text (spellingOf d))) elements definitions) :
    ∃ kss, List.Forall₂ (fun e ks => Gives d (e.text (spellingOf d)).toList ks) elements kss ∧
      ∀ ks ∈ kss, IsPart ks ∧ .semicolon ∉ ks ∧ ks ≠ [] := by
  induction h with
  | nil => exact ⟨[], .nil, by simp⟩
  | cons hd _ ih =>
      obtain ⟨ks, hgives, hks⟩ := hd.gives
      obtain ⟨kss, hall, hkss⟩ := ih
      refine ⟨ks :: kss, .cons hgives hall, fun js hjs => ?_⟩
      rcases List.mem_cons.1 hjs with rfl | hjs
      · exact hks
      · exact hkss js hjs

/-- The definitions of a body whose elements are read. -/
theorem map_ofTokens_of_readsAs {elements : List TableElement} {definitions : List Definition}
    {parts : List (List Token)}
    (h : List.Forall₂ (fun e => ReadsAs d (e.text (spellingOf d))) elements definitions)
    (hs : List.Forall₂ (fun e => StandsSomewhere d source (e.text (spellingOf d)).toList) elements
      parts) : parts.map (Definition.ofTokens (rulesOf d) source) = definitions := by
  induction h generalizing parts with
  | nil =>
      cases hs
      rfl
  | cons hd _ ih =>
      cases hs with
      | cons hpart hparts => rw [List.map_cons, hd.reads source _ hpart, ih hparts]

/-- **A conversion is read in full**: as the table of the definitions that its elements are read as,
with the comments of its statements. -/
theorem parseAll_readsAs {c : Conversion} {definitions : List Definition} (hname : c.create.name ≠ "")
    (hcomments : d = .postgresql ∨ c.comments = [])
    (h : List.Forall₂ (fun e => ReadsAs d (e.text (spellingOf d))) c.create.elements definitions) :
    parseAll d (c.text (spellingOf d)) =
      .ok ((c.comments.map CommentOn.read).foldl (fun ts c => c.applyAmong ts)
        [{ tableOfDefinitions (rulesOf d) c.create.name definitions with
            tableComment := c.create.comment.getD "" }]) := by
  obtain ⟨kss, hgives, hkss⟩ := kinds_of_readsAs h
  have hwritten : Written d c kss :=
    ⟨hname, hcomments, hgives, fun ks hks => ⟨(hkss ks hks).1.balanced, (hkss ks hks).2.1⟩⟩
  obtain ⟨tokens, htokens, -⟩ := (gives_conversion hcomments hgives).tokenize
  unfold parseAll
  dsimp only
  generalize hsource : (c.text (spellingOf d)).toList = source at htokens ⊢
  have hwhole : Stands d source [] (headText d c.create.name ++
      '\n' :: (bodyText d c.create.elements ++
        (tailText d c.create ++ ';' :: commentsText c.comments))) tokens := by
    rw [← toList_conversion d c, hsource]
    exact Stands.whole htokens
  obtain ⟨head, body, tail, semicolon, us, pre, rfl, hhead, hbody, htail, hsemicolon, hparts, hus⟩ :=
    exists_parts hgives (fun ks hks => ⟨(hkss ks hks).1, (hkss ks hks).2.2⟩) hwhole
  -- the first statement creates the table
  have hkinds : (head ++ (body ++ tail)).map Token.kind = createKinds d c.create kss := by
    rw [List.map_append, List.map_append, hhead, hbody, htail, createKinds_eq]
  obtain ⟨hnosemicolon, hnonempty⟩ :=
    conversionKinds_statement (p := (c, kss)) hwritten _ List.mem_cons_self
  rw [← hkinds] at hnosemicolon hnonempty
  have hbalanced : IsBalanced (body.map Token.kind) :=
    hbody ▸ balanced_intercalate fun ks hks => (hkss ks hks).1.balanced
  obtain ⟨after, hafter, htable⟩ := createTable_parts hname hhead hbalanced htail
  -- the others give comments
  have hothers : us.map Token.kind = scriptKinds (c.comments.map commentKinds) := by
    rcases hcomments with rfl | hnone
    · exact hus.kinds (gives_comments c.comments)
    · rw [hnone] at hus ⊢
      rw [hus.nil]
      rfl
  have hstatements := map_kind_statements (fun ks hks => conversionKinds_statement (p := (c, kss))
    hwritten ks (List.mem_cons_of_mem _ hks)) hothers
  obtain ⟨hgiven, hnone⟩ := comments_written hstatements
  have hscript : statements (head ++ (body ++ (tail ++ semicolon :: us))) =
      (head ++ (body ++ tail)) :: statements us := by
    rw [← statements_cons (by simpa using hnonempty) hnosemicolon hsemicolon]
    simp
  have htables : tablesOf (rulesOf d) source
      ((head ++ (body ++ tail)) :: statements us) =
        .ok [{ tableOfDefinitions (rulesOf d) c.create.name definitions with
          tableComment := c.create.comment.getD "" }] := by
    rw [tablesOf_single hafter (htable _ _) hnone, ← map_ofTokens_of_readsAs h hparts]
    rfl
  have hspoken : commentsOf (rulesOf d) ((head ++ (body ++ tail)) :: statements us) =
      c.comments.map CommentOn.read := by
    refine commentsOf_of_given hcomments ?_
    rw [List.filterMap_cons, ofTokens?_create hkinds, hgiven]
  simp only [htokens, tablesOfTokens, hscript, htables, hspoken]

end Schemata.Ddl
