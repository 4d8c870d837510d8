import Mathlib.Data.List.Nodup
import Mathlib.Data.List.Perm.Basic
import Schemata.Proofs.Columns.Operands
import Schemata.Proofs.Ddl.Definitions
import Schemata.Proofs.Sql.Copies
import Schemata.Proofs.Sql.Parsed

/-! # The order of clauses

What two clauses of a column say does not depend on their order if they are not clauses of one kind
(`Declaration.add_swap`), and no clause takes tokens of the next one (`Spells.reads`).  So a definition of MySQL with
each clause at most once declares the same column in every order of its clauses
(`sameColumn_of_perm`). -/

namespace Schemata.Sql

open Schemata.Text

/-! ### Clauses -/

/-- The clauses of a column that may stand in any order. -/
inductive Clause
  | notNull
  | unsigned
  | defaultTo
  | primaryKey
  | unique
  | autoIncrement
  | comment
  | collate
deriving DecidableEq, Repr

/-- How a clause is spelled; keywords may be written in any letter case. -/
inductive Spells : Clause → List TokenKind → Prop
  | notNull {j k : TokenKind} (hj : j.keyword? = some "not") (hk : k.keyword? = some "null") :
      Spells .notNull [j, k]
  | unsigned {k : TokenKind} (hk : k.keyword? = some "unsigned") : Spells .unsigned [k]
  | defaultTo {k : TokenKind} {value : List TokenKind} (hk : k.keyword? = some "default")
      (hvalue : IsOperand value) : Spells .defaultTo (k :: value)
  | primaryKey {j k : TokenKind} (hj : j.keyword? = some "primary") (hk : k.keyword? = some "key") :
      Spells .primaryKey [j, k]
  | unique {k : TokenKind} (hk : k.keyword? = some "unique") : Spells .unique [k]
  | autoIncrement {k : TokenKind} (hk : k.keyword? = some "auto_increment") : Spells .autoIncrement [k]
  | comment {j k : TokenKind} (hj : j.keyword? = some "comment") (hk : IsString k) :
      Spells .comment [j, k]
  | collate {k : TokenKind} (hk : k.keyword? = some "collate") (word : String) :
      Spells .collate [k, .word word]

/-- The words that start these clauses. -/
def freeWords : List String :=
  ["not", "unsigned", "default", "primary", "unique", "auto_increment", "comment", "collate"]

/-- The clause that an attribute comes from. -/
def Attribute.clause? : Attribute → Option Clause
  | .notNull => some .notNull
  | .unsigned => some .unsigned
  | .defaultTo _ | .nextValue => some .defaultTo
  | .primaryKey => some .primaryKey
  | .unique => some .unique
  | .autoIncrement => some .autoIncrement
  | .comment _ => some .comment
  | .passedOver => some .collate
  | .nullable | .dropped _ => none

variable {source source' pre name type : List Char} {s : String} {t : Token} {ts us r more : List Token}
  {p q : Clause} {ks : List TokenKind}

/-! ### What clauses say -/

/-- **Attributes of different clauses say the same in either order.** -/
theorem Declaration.add_swap {a b : Attribute} (ha : a.clause? = some p) (hb : b.clause? = some q) (hne : p ≠ q)
    (dec : Declaration) : (dec.add a).add b = (dec.add b).add a := by
  obtain rfl | hab := eq_or_ne a b
  · rfl
  · cases a <;> cases b <;> first
      | rfl
      | simp_all [Attribute.clause?]

/-- Attributes of different clauses say the same in any order. -/
theorem foldl_add_perm {as bs : List Attribute} (hperm : as.Perm bs)
    (hclause : ∀ a ∈ as, (a.clause?).isSome) (honce : ∀ a ∈ as, ∀ b ∈ as, a.clause? = b.clause? → a = b)
    (dec : Declaration) : as.foldl Declaration.add dec = bs.foldl Declaration.add dec := by
  refine hperm.foldl_eq' (fun a ha b hb dec => ?_) dec
  by_cases hsame : a.clause? = b.clause?
  · rw [honce a ha b hb hsame]
  · obtain ⟨p, hp⟩ := Option.isSome_iff_exists.1 (hclause a ha)
    obtain ⟨q, hq⟩ := Option.isSome_iff_exists.1 (hclause b hb)
    exact Declaration.add_swap hp hq (fun hpq => hsame (by rw [hp, hq, hpq])) dec

/-! ### Where clauses end -/

/-- Nothing follows, or a word that starts a clause. -/
def StartsFreely (ts : List Token) : Prop := ∀ t ∈ ts.head?, t.isOneOf freeWords

theorem startsFreely_nil : StartsFreely [] := by
  simp [StartsFreely]

theorem StartsFreely.head (h : StartsFreely (t :: r)) :
    ∃ w, t.kind = .word w ∧ asciiLower w ∈ freeWords := by
  obtain ⟨word, hmem, hkey⟩ := List.any_eq_true.1 (h t rfl)
  obtain ⟨w, hw, rfl⟩ := Option.map_eq_some_iff.1 (beq_iff_eq.1 hkey)
  exact ⟨w, kind_of_word? hw, hmem⟩

/-- A word that starts a clause ends a type in MySQL. -/
theorem StartsFreely.startsWithEnd (h : StartsFreely ts) : StartsWithEnd mysqlRules ts := by
  cases ts with
  | nil => exact startsWithEnd_nil
  | cons t r =>
      obtain ⟨w, hkind, hmem⟩ := h.head
      have table : ∀ word ∈ freeWords,
          constraintWords.contains word || mysqlRules.typeEndWords.contains word := by decide
      intro u hu
      obtain rfl : t = u := Option.some.inj hu
      exact ⟨w, by simp [Token.word?, hkind], table _ hmem⟩

theorem StartsFreely.isKeyword_eq_false {k : String} (h : StartsFreely ts) (hk : k ∉ freeWords) :
    afterWords [k] ts = none := by
  cases ts with
  | nil => rfl
  | cons t r =>
      obtain ⟨w, hkind, hmem⟩ := h.head
      refine afterWords_neg ?_
      rw [isKeyword_eq, hkind, TokenKind.keyword?, beq_eq_false_iff_ne]
      rintro he
      exact hk (Option.some.inj he ▸ hmem)

theorem StartsFreely.ne_doubleColon (h : StartsFreely ts) : ∀ t ∈ ts.head?, t.kind ≠ .doubleColon := by
  intro t ht
  obtain ⟨r, rfl⟩ : ∃ r, ts = t :: r := ⟨_, (List.cons_head?_tail ht).symm⟩
  obtain ⟨w, hkind, -⟩ := h.head
  simp [hkind]

/-- A value gives a default, or the next value of a sequence. -/
theorem clause?_defaultAttribute (h : IsOperand (ts.map Token.kind)) (rules : Rules) (source : List Char) :
    (defaultAttribute rules source ts).1.clause? = some .defaultTo := by
  obtain ⟨t, r, hread⟩ := exists_readsOperand h
  have hsign := (hread [] endsOperand_nil).sign
  rw [List.append_nil] at hsign
  unfold defaultAttribute
  rw [hsign]
  dsimp only
  split <;> rfl

theorem isOneOf_freeWords {k : TokenKind} {w : String} (ht : t.kind = k) (hk : k.keyword? = some w)
    (hw : w ∈ freeWords) : t.isOneOf freeWords := by
  rw [isOneOf_eq, ht, hk]
  exact List.any_eq_true.2 ⟨w, hw, beq_self_eq_true _⟩

/-- How a clause is read: it starts with its word, says one thing and ends before another clause. -/
structure ReadsClause (rules : Rules) (source : List Char) (p : Clause) (t : Token) (r : List Token)
    (a : Attribute) : Prop where
  starts : t.isOneOf freeWords
  clause : a.clause? = some p
  ends : ∀ more, StartsFreely more → readAttribute rules source t (r ++ more) = (a, more)

/-- **A clause is read to its end** before another one, and says one thing. -/
theorem Spells.reads (h : Spells p (ts.map Token.kind)) (rules : Rules) (source : List Char) :
    ∃ t r a, ts = t :: r ∧ ReadsClause rules source p t r a := by
  generalize hks : ts.map Token.kind = ks at h
  cases h with
  | notNull hj hk =>
      obtain ⟨t, u, rfl, ht, hu⟩ := exists_pair_of_kinds hks
      exact ⟨t, [u], .notNull, rfl, isOneOf_freeWords ht hj (by decide), rfl, fun more _ =>
        readAttribute_not (keyword?_of_kind ht hj) (isKeyword_of_kind hu hk)⟩
  | unsigned hk =>
      obtain ⟨t, rfl, ht⟩ := List.map_eq_singleton_iff.1 hks
      refine ⟨t, [], .unsigned, rfl, isOneOf_freeWords ht hk (by decide), rfl, fun more _ => ?_⟩
      simp only [readAttribute, keyword?_of_kind ht hk, List.nil_append]
  | defaultTo hk hvalue =>
      obtain ⟨t, value, rfl, ht, rfl⟩ := List.map_eq_cons_iff.1 hks
      refine ⟨t, value, (defaultAttribute rules source value).1, rfl, isOneOf_freeWords ht hk (by decide),
        clause?_defaultAttribute hvalue rules source, fun more hmore => ?_⟩
      rw [readAttribute_default (keyword?_of_kind ht hk), defaultAttribute_append rules source hvalue
        hmore.startsWithEnd.endsOperand, skipCasts_of_ne hmore.ne_doubleColon]
  | primaryKey hj hk =>
      obtain ⟨t, u, rfl, ht, hu⟩ := exists_pair_of_kinds hks
      exact ⟨t, [u], .primaryKey, rfl, isOneOf_freeWords ht hj (by decide), rfl, fun more _ =>
        readAttribute_primary (keyword?_of_kind ht hj) (isKeyword_of_kind hu hk)⟩
  | unique hk =>
      obtain ⟨t, rfl, ht⟩ := List.map_eq_singleton_iff.1 hks
      refine ⟨t, [], .unique, rfl, isOneOf_freeWords ht hk (by decide), rfl, fun more hmore => ?_⟩
      simp only [readAttribute, keyword?_of_kind ht hk, List.nil_append, skipWord,
        hmore.isKeyword_eq_false (k := "key") (by decide),
        hmore.isKeyword_eq_false (k := "index") (by decide), Option.getD_none]
  | autoIncrement hk =>
      obtain ⟨t, rfl, ht⟩ := List.map_eq_singleton_iff.1 hks
      exact ⟨t, [], .autoIncrement, rfl, isOneOf_freeWords ht hk (by decide), rfl, fun more _ =>
        readAttribute_autoIncrement (keyword?_of_kind ht hk)⟩
  | comment hj hk =>
      obtain ⟨t, u, rfl, ht, hu⟩ := exists_pair_of_kinds hks
      obtain ⟨text, htext⟩ : ∃ text, u.string? = some text := by
        cases hk with
        | literal text => exact ⟨text, by simp [Token.string?, hu]⟩
        | quoted text => exact ⟨text, by simp [Token.string?, hu]⟩
      refine ⟨t, [u], .comment text, rfl, isOneOf_freeWords ht hj (by decide), rfl, fun more _ => ?_⟩
      rw [readAttribute_comment (keyword?_of_kind ht hj), List.singleton_append, commentAttribute]
      simp only [htext]
  | collate hk text =>
      obtain ⟨t, u, rfl, ht, -⟩ := exists_pair_of_kinds hks
      refine ⟨t, [u], .passedOver, rfl, isOneOf_freeWords ht hk (by decide), rfl, fun more _ => ?_⟩
      simp only [readAttribute, keyword?_of_kind ht hk, List.singleton_append, List.drop_succ_cons,
        List.drop_zero]

/-- The attributes of a clause end before another one. -/
theorem Spells.attributes_append (h : Spells p (ts.map Token.kind)) (rules : Rules) (source : List Char)
    (hmore : StartsFreely more) :
    attributes rules source (ts ++ more) = attributes rules source ts ++ attributes rules source more := by
  obtain ⟨t, r, a, rfl, hread⟩ := h.reads rules source
  have hall := hread.ends more hmore
  have halone := hread.ends [] startsFreely_nil
  rw [List.append_nil] at halone
  rw [List.cons_append, attributes, attributes, hall, halone, attributes]
  rfl

theorem Spells.startsFreely (h : Spells p (ts.map Token.kind)) (more : List Token) :
    StartsFreely (ts ++ more) := by
  obtain ⟨t, r, a, rfl, hread⟩ := h.reads mysqlRules []
  intro u hu
  obtain rfl : t = u := by simpa using hu
  exact hread.starts

/-- **A clause has one attribute.** -/
theorem Spells.exists_attribute (h : Spells p (ts.map Token.kind)) (rules : Rules) (source : List Char) :
    ∃ a, attributes rules source ts = [a] ∧ a.clause? = some p := by
  obtain ⟨t, r, a, rfl, hread⟩ := h.reads rules source
  have halone := hread.ends [] startsFreely_nil
  rw [List.append_nil] at halone
  refine ⟨a, ?_, hread.clause⟩
  rw [attributes, halone, attributes]

/-- **Clauses one after the other** have the attributes of each of them. -/
theorem attributes_flatten {clauses : List Clause} {tss : List (List Token)}
    (h : List.Forall₂ (fun p ts => Spells p (ts.map Token.kind)) clauses tss) (rules : Rules)
    (source : List Char) (hmore : StartsFreely more) :
    attributes rules source (tss.flatten ++ more) =
        tss.flatMap (attributes rules source) ++ attributes rules source more ∧
      StartsFreely (tss.flatten ++ more) := by
  induction h with
  | nil => exact ⟨rfl, hmore⟩
  | cons hspells _ ih =>
      rw [List.flatten_cons, List.flatMap_cons, List.append_assoc, List.append_assoc, ← ih.1]
      exact ⟨hspells.attributes_append rules source ih.2, hspells.startsFreely _⟩

/-! ### Texts of clauses -/

/-- The attributes that a text spells by itself. -/
def attributesOf (rules : Rules) (text : List Char) : List Attribute :=
  match tokenize rules text with
  | .ok ts => attributes rules text ts
  | .error _ => []

/-- A text has the same attributes wherever it stands. -/
theorem StandsSomewhere.attributes_eq {d : Dialect} {text : List Char}
    (h : StandsSomewhere d source text ts) :
    attributes (rulesOf d) source ts = attributesOf (rulesOf d) text := by
  obtain ⟨us, hus, -⟩ := h.choose_spec.alone
  have halone : StandsSomewhere d text text us := ⟨[], .whole hus⟩
  rw [(h.copies halone).attributes, attributesOf, hus]

/-- Texts that stand after spaces have their tokens one after the other. -/
theorem Stands.spacedTexts {d : Dialect} {texts : List (List Char)}
    (hgives : ∀ text ∈ texts, ∃ ks, Gives d text ks)
    (h : Stands d source pre (texts.flatMap (' ' :: ·)) ts) :
    ∃ tss, ts = tss.flatten ∧ List.Forall₂ (StandsSomewhere d source) texts tss := by
  induction texts generalizing pre ts with
  | nil => exact ⟨[], h.nil, .nil⟩
  | cons text texts ih =>
      obtain ⟨ks, hks⟩ := hgives text (by simp)
      rw [List.flatMap_cons, List.cons_append] at h
      have hsep : Separated (texts.flatMap (' ' :: ·)) := by
        cases texts with
        | nil => exact separated_nil
        | cons => exact separated_cons.2 (by decide)
      obtain ⟨ts₁, ts₂, rfl, h₁, h₂⟩ := (h.blank (by decide)).split hks hsep
      obtain ⟨tss, rfl, htss⟩ := ih (fun text ht => hgives text (by simp [ht])) h₂
      exact ⟨ts₁ :: tss, rfl, .cons ⟨_, h₁⟩ htss⟩

/-! ### Definitions -/

/-- A text that is the name `s` of a column. -/
def IsNameText (d : Dialect) (text : List Char) (s : String) : Prop :=
  s ≠ "" ∧ ∃ k, Gives d text [k] ∧ (k = .word s ∨ ∃ quote, k = .quotedIdent s quote)

/-- A text that is read to its end as a type, and leaves no parenthesis open. -/
structure IsTypeText (d : Dialect) (text : List Char) : Prop where
  shape : ∃ ks, Gives d text ks ∧ IsBalanced ks ∧ .lbracket ∉ ks
  reads : ∃ ts c, tokenize (rulesOf d) text = .ok ts ∧
    columnOfType? (rulesOf d) text "" ts = some (c, [])

/-- A name of a type with numbers in parentheses after it, or with nothing, is a type. -/
theorem isTypeText_params {d : Dialect} {type params : String} (htype : (Ddl.writtenName? d type).isSome)
    (hparams : Ddl.isNumbers params.toList) : IsTypeText d (type ++ params).toList := by
  obtain ⟨raw, hraw⟩ := Option.isSome_iff_exists.1 htype
  obtain ⟨hsep, ks, hks, hnumbers⟩ := Ddl.gives_of_isNumbers (d := d) hparams
  obtain ⟨kinds, hgives, hkinds⟩ := Ddl.givesType_params params hraw hks hsep hnumbers
  refine ⟨⟨kinds, hgives, hkinds.part.1.balanced, ?_⟩, ?_⟩
  · obtain ⟨w, ws, ps, rfl, -, -, hps, -⟩ := hkinds.shape
    rcases hps with rfl | ⟨inner, rfl, hinner⟩
    · simp
    · have : TokenKind.lbracket ∉ inner := fun hmem => by
        rcases hinner _ hmem with h | h <;> simp [isNumeralKind] at h
      simp [this]
  · obtain ⟨ts, hts, rfl⟩ := hgives.tokenize
    obtain ⟨length, precision, members, hread⟩ :=
      Ddl.columnOfType?_written hkinds Ddl.startsClause_nil (type ++ params).toList ""
    rw [List.append_nil] at hread
    exact ⟨ts, _, hts, hread⟩

/-- The text of a column: its name, its type and its clauses, with spaces between them. -/
def columnText (name type : List Char) (clauses : List (List Char)) : List Char :=
  name ++ ' ' :: (type ++ clauses.flatMap (' ' :: ·))

/-- Texts of clauses, each with the clause that it spells. -/
def AreClauses (clauses : List (Clause × List Char)) : Prop :=
  ∀ clause ∈ clauses, ∃ ks, Gives .mysql clause.2 ks ∧ Spells clause.1 ks

/-- The attributes that clauses spell. -/
def clauseAttributes (clauses : List (Clause × List Char)) : List Attribute :=
  clauses.flatMap fun clause => attributesOf mysqlRules clause.2

/-- A clause has one attribute by itself. -/
theorem exists_attributesOf {text : List Char} (hgives : Gives .mysql text ks) (h : Spells p ks) :
    ∃ a, attributesOf mysqlRules text = [a] ∧ a.clause? = some p := by
  obtain ⟨us, hus, rfl⟩ := hgives.tokenize
  obtain ⟨a, ha, hclause⟩ := h.exists_attribute mysqlRules text
  refine ⟨a, ?_, hclause⟩
  rw [attributesOf, show tokenize mysqlRules text = .ok us from hus]
  exact ha

/-- Clauses that follow a type have their attributes, and end the type. -/
theorem Stands.clauses {clauses : List (Clause × List Char)} (hclauses : AreClauses clauses)
    (h : Stands .mysql source pre ((clauses.map Prod.snd).flatMap (' ' :: ·)) ts) :
    attributes mysqlRules source ts = clauseAttributes clauses ∧ StartsFreely ts := by
  have hgives : ∀ text ∈ clauses.map Prod.snd, ∃ ks, Gives .mysql text ks := by
    intro text htext
    obtain ⟨clause, hclause, rfl⟩ := List.mem_map.1 htext
    obtain ⟨ks, hks, -⟩ := hclauses clause hclause
    exact ⟨ks, hks⟩
  obtain ⟨tss, rfl, htss⟩ := h.spacedTexts hgives
  have hspells : List.Forall₂ (fun p ts => Spells p (ts.map Token.kind)) (clauses.map Prod.fst) tss := by
    rw [List.forall₂_map_left_iff] at htss ⊢
    refine ((List.forall₂_and_left _ _).2 ⟨hclauses, htss⟩).imp ?_
    rintro clause ts ⟨⟨ks, hks, hspells⟩, pre, hstands⟩
    rwa [hstands.kinds hks]
  obtain ⟨hall, hstart⟩ := attributes_flatten hspells mysqlRules source startsFreely_nil
  rw [List.append_nil] at hstart
  rw [List.append_nil, attributes_nil, List.append_nil] at hall
  refine ⟨hall.trans ?_, hstart⟩
  have heach : List.Forall₂ (fun text ts => attributesOf mysqlRules text = attributes mysqlRules source ts)
      (clauses.map Prod.snd) tss := htss.imp fun text ts hstands => hstands.attributes_eq.symm
  rw [clauseAttributes, List.flatMap_def, List.flatMap_def, ← map_eq_of_forall₂ heach, List.map_map]
  rfl

/-- Clauses of different kinds say the same in any order. -/
theorem foldl_clauseAttributes {clauses clauses' : List (Clause × List Char)}
    (hclauses : AreClauses clauses) (honce : (clauses.map Prod.fst).Nodup)
    (hperm : clauses.Perm clauses') (dec : Declaration) :
    (clauseAttributes clauses).foldl Declaration.add dec =
      (clauseAttributes clauses').foldl Declaration.add dec := by
  have hone : ∀ a ∈ clauseAttributes clauses, ∃ clause ∈ clauses,
      attributesOf mysqlRules clause.2 = [a] ∧ a.clause? = some clause.1 := by
    intro a ha
    obtain ⟨clause, hmem, ha⟩ := List.mem_flatMap.1 ha
    obtain ⟨ks, hks, hspells⟩ := hclauses clause hmem
    obtain ⟨b, hb, hclause⟩ := exists_attributesOf hks hspells
    obtain rfl : a = b := by simpa [hb] using ha
    exact ⟨clause, hmem, hb, hclause⟩
  refine foldl_add_perm (hperm.flatMap_right _) (fun a ha => ?_) (fun a ha b hb hsame => ?_) dec
  · obtain ⟨clause, -, -, hclause⟩ := hone a ha
    rw [hclause]
    rfl
  · obtain ⟨clause, hmem, hread, hclause⟩ := hone a ha
    obtain ⟨clause', hmem', hread', hclause'⟩ := hone b hb
    have hkind : clause.1 = clause'.1 := by
      rw [hclause, hclause'] at hsame
      exact Option.some.inj hsame
    obtain rfl : clause = clause' := List.inj_on_of_nodup_map honce hmem hmem' hkind
    exact List.singleton_inj.1 (hread.symm.trans hread')

/-- **A definition is read** as its name, its type and its clauses, wherever it stands. -/
theorem columnDefinition?_columnText {clauses : List (Clause × List Char)} {k : TokenKind} {c : Column}
    (hs : s ≠ "") (hname : Gives .mysql name [k]) (hk : k = .word s ∨ ∃ quote, k = .quotedIdent s quote)
    (htype : IsTypeText .mysql type) (halone : tokenize mysqlRules type = .ok us)
    (hreads : columnOfType? mysqlRules type "" us = some (c, [])) (hclauses : AreClauses clauses)
    (h : StandsSomewhere .mysql source (columnText name type (clauses.map Prod.snd)) ts) :
    ∃ t us' tail, ts = t :: (us' ++ tail) ∧ t.kind = k ∧ us'.map Token.kind = us.map Token.kind ∧
      columnDefinition? mysqlRules source ts = some (Ddl.columnOf mysqlRules
        ((clauseAttributes clauses).foldl Declaration.add { column := { c with name := s } })) := by
  obtain ⟨pre, h⟩ := h
  obtain ⟨⟨ks, hgives, hbalanced, hbracket⟩, -⟩ := htype
  obtain ⟨ts₁, ts₂, rfl, h₁, h₂⟩ := h.spaced hname
  have hsep : Separated ((clauses.map Prod.snd).flatMap (' ' :: ·)) := by
    cases clauses with
    | nil => exact separated_nil
    | cons => exact separated_cons.2 (by decide)
  obtain ⟨us', tail, rfl, hus', htail⟩ := h₂.split hgives hsep
  obtain ⟨hattributes, hstart⟩ := htail.clauses hclauses
  obtain ⟨t, rfl, ht⟩ := List.map_eq_singleton_iff.1 (h₁.kinds hname)
  -- the type is read as the copy of the one that stands alone
  have hcopies : Copies type source us us' :=
    StandsSomewhere.copies (d := .mysql) ⟨[], .whole halone⟩ ⟨_, hus'⟩
  obtain ⟨rest, hcopy, hrest⟩ := hcopies.columnOfType? (columnOfType?_named hreads s)
  obtain rfl : rest = [] := by
    cases hrest
    rfl
  have hkinds : us'.map Token.kind = ks := hus'.kinds hgives
  have hends : columnOfType? mysqlRules source s (us' ++ tail) = some ({ c with name := s }, tail) := by
    refine columnOfType?_ends (d := .mysql) hcopy (hkinds ▸ hbalanced) (fun u hu he => hbracket ?_)
      hstart.startsWithEnd.endsType
    rw [← hkinds, ← he]
    exact List.mem_map_of_mem hu
  have hident : t.ident? = some s := by
    rcases hk with rfl | ⟨quote, rfl⟩ <;> simp [Token.ident?, ht]
  refine ⟨t, us', tail, rfl, ht, hcopies.map_kind.symm, ?_⟩
  rw [List.singleton_append, columnDefinition?]
  simp only [hident, String.isEmpty_iff, hs, if_false, hends, Option.map_some, hattributes]
  rfl

/-- **Clauses may stand in any order**: a definition of a name, a type and clauses, each of them at most
once, declares the same column, the same keys and the same notices in every order of the clauses, and is
taken for a column in each of them or in none. -/
theorem sameColumn_of_perm {clauses clauses' : List (Clause × List Char)}
    (hname : IsNameText .mysql name s) (htype : IsTypeText .mysql type) (hclauses : AreClauses clauses)
    (honce : (clauses.map Prod.fst).Nodup) (hperm : clauses.Perm clauses')
    (h : StandsSomewhere .mysql source (columnText name type (clauses.map Prod.snd)) ts)
    (h' : StandsSomewhere .mysql source' (columnText name type (clauses'.map Prod.snd)) us) :
    ∃ c primary unique notices, c.name = s ∧
      columnDefinition? mysqlRules source ts = some (.column c primary unique notices) ∧
      columnDefinition? mysqlRules source' us = some (.column c primary unique notices) ∧
      (TakenForColumn mysqlRules ts ↔ TakenForColumn mysqlRules us) ∧
      (TakenForColumn mysqlRules ts →
        Definition.ofTokens mysqlRules source ts = .column c primary unique notices ∧
        Definition.ofTokens mysqlRules source' us = .column c primary unique notices) := by
  obtain ⟨hs, k, hgives, hk⟩ := hname
  obtain ⟨vs, c, halone, hreads⟩ := htype.reads
  have hclauses' : AreClauses clauses' := fun clause hclause =>
    hclauses clause (hperm.mem_iff.2 hclause)
  obtain ⟨t, type₁, tail₁, rfl, ht, htype₁, hcolumn⟩ :=
    columnDefinition?_columnText hs hgives hk htype halone hreads hclauses h
  obtain ⟨t', type₂, tail₂, rfl, ht', htype₂, hcolumn'⟩ :=
    columnDefinition?_columnText hs hgives hk htype halone hreads hclauses' h'
  rw [← foldl_clauseAttributes hclauses honce hperm] at hcolumn'
  have htaken : TakenForColumn mysqlRules (t :: (type₁ ++ tail₁)) ↔
      TakenForColumn mysqlRules (t' :: (type₂ ++ tail₂)) := by
    cases vs with
    | nil => simp [columnOfType?] at hreads
    | cons v vs =>
        obtain ⟨u₁, r₁, rfl, hu₁, -⟩ := List.map_eq_cons_iff.1 htype₁
        obtain ⟨u₂, r₂, rfl, hu₂, -⟩ := List.map_eq_cons_iff.1 htype₂
        exact takenForColumn_congr (ht.trans ht'.symm) (hu₁.trans hu₂.symm) mysqlRules _ _
  refine ⟨_, _, _, _, ?_, hcolumn, hcolumn', htaken, fun hfirst =>
    ⟨hfirst.ofTokens_eq hcolumn, (htaken.1 hfirst).ofTokens_eq hcolumn'⟩⟩
  rw [settle_keeps (f := Column.name) fun _ => rfl, (foldl_add_column _ _).1]

/-- Each of the clauses once. -/
def priceClauses : List (Clause × List Char) :=
  [(.unsigned, "UNSIGNED".toList), (.notNull, "not null".toList), (.defaultTo, "DEFAULT -1.5".toList),
    (.unique, "UNIQUE".toList), (.autoIncrement, "AUTO_INCREMENT".toList),
    (.primaryKey, "PRIMARY KEY".toList), (.comment, "COMMENT \"net, or gross\"".toList),
    (.collate, "COLLATE utf8mb4_bin".toList)]

/-- The clauses with those for keys in front. -/
def keysFirst : List (Clause × List Char) :=
  priceClauses.filter (fun c => c.1 = .primaryKey ∨ c.1 = .unique) ++
    priceClauses.filter (fun c => ¬(c.1 = .primaryKey ∨ c.1 = .unique))

/-- The text of a column with the given clauses. -/
def priceText (clauses : List (Clause × List Char)) : List Char :=
  columnText "price".toList ("decimal" ++ "(8,2)").toList (clauses.map Prod.snd)

theorem areClauses_price : AreClauses priceClauses := by
  have gives : ∀ {text ks}, wholeKinds? (rulesOf .mysql) text = some ks → Gives .mysql text ks :=
    gives_of_wholeKinds?
  have hvalue : IsOperand ([.symbol '-'] ++ [.number "1.5"]) := .number (by decide) "1.5"
  have hdefault : Spells .defaultTo [.word "DEFAULT", .symbol '-', .number "1.5"] :=
    .defaultTo (by decide) hvalue
  intro clause hclause
  simp only [priceClauses, List.mem_cons, List.not_mem_nil, or_false] at hclause
  rcases hclause with rfl | rfl | rfl | rfl | rfl | rfl | rfl | rfl
  · exact ⟨[.word "UNSIGNED"], gives (by decide +kernel), .unsigned (by decide)⟩
  · exact ⟨[.word "not", .word "null"], gives (by decide +kernel), .notNull (by decide) (by decide)⟩
  · exact ⟨_, gives (by decide +kernel), hdefault⟩
  · exact ⟨[.word "UNIQUE"], gives (by decide +kernel), .unique (by decide)⟩
  · exact ⟨[.word "AUTO_INCREMENT"], gives (by decide +kernel), .autoIncrement (by decide)⟩
  · exact ⟨[.word "PRIMARY", .word "KEY"], gives (by decide +kernel),
      .primaryKey (by decide) (by decide)⟩
  · exact ⟨[.word "COMMENT", .quotedIdent "net, or gross" '"'], gives (by decide +kernel),
      .comment (by decide) (.quoted _)⟩
  · exact ⟨[.word "COLLATE", .word "utf8mb4_bin"], gives (by decide +kernel), .collate (by decide) _⟩

theorem sameColumn_price : ∃ ts us, tokenize mysqlRules (priceText priceClauses) = .ok ts ∧
    tokenize mysqlRules (priceText keysFirst) = .ok us ∧ priceText priceClauses ≠ priceText keysFirst ∧
    ∃ c primary unique notices, c.name = "price" ∧
      columnDefinition? mysqlRules (priceText priceClauses) ts = some (.column c primary unique notices) ∧
      columnDefinition? mysqlRules (priceText keysFirst) us = some (.column c primary unique notices) := by
  have hname : IsNameText .mysql "price".toList "price" :=
    ⟨by decide, .word "price", gives_of_wholeKinds? (by decide +kernel), .inl rfl⟩
  have htype : IsTypeText .mysql ("decimal" ++ "(8,2)").toList :=
    isTypeText_params (by decide +kernel) (by decide +kernel)
  have hok : ∀ clauses, (tokenize mysqlRules (priceText clauses)).isOk →
      ∃ ts, tokenize mysqlRules (priceText clauses) = .ok ts := fun clauses h => by
    cases hts : tokenize mysqlRules (priceText clauses) with
    | ok ts => exact ⟨ts, rfl⟩
    | error e => simp [hts, Except.isOk, Except.toBool] at h
  obtain ⟨ts, hts⟩ := hok priceClauses (by decide +kernel)
  obtain ⟨us, hus⟩ := hok keysFirst (by decide +kernel)
  have hperm : priceClauses.Perm keysFirst := by decide +kernel
  obtain ⟨c, primary, unique, notices, hc, hfirst, hsecond, -⟩ := sameColumn_of_perm hname htype
    areClauses_price (by decide) hperm ⟨[], .whole hts⟩ ⟨[], .whole hus⟩
  exact ⟨ts, us, hts, hus, by decide, c, primary, unique, notices, hc, hfirst, hsecond⟩

end Schemata.Sql
