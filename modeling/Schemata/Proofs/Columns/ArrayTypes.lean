import Mathlib.Logic.Function.Iterate
import Schemata.Entity.Python
import Schemata.Proofs.Ddl.SettledTypes
import Schemata.Proofs.Sql.Copies
import Schemata.Proofs.Sql.TypeEnds

/-! # Dimensions of array types

A type of PostgreSQL is followed by a pair of brackets for every dimension, or by the word `ARRAY` for
one (`MarksDimensions`).  The name of the type keeps `[]` for each of them, and the number is read off
the name again (`splitArray_marked`): a language takes the array of the element type that many times,
and MySQL has a JSON document in place of any array (`countsDimensions_of_marks`). -/

namespace Schemata.SqlType

/-! ### Names of array types -/

/-- Marks in front of a name that is spelled backwards are taken off and counted. -/
theorem stripArrayMarks_marked (n : Nat) (cs : List Char) :
    stripArrayMarks ((List.replicate n [']', '[']).flatten ++ cs) =
      ((stripArrayMarks cs).1, (stripArrayMarks cs).2 + n) := by
  induction n with
  | zero => rfl
  | succ n ih =>
      have hstep : ∀ r, stripArrayMarks (']' :: '[' :: r) =
          ((stripArrayMarks r).1, (stripArrayMarks r).2 + 1) := fun _ => rfl
      rw [List.replicate_succ, List.flatten_cons, List.append_assoc, List.cons_append, List.cons_append,
        List.nil_append, hstep, ih, Nat.add_assoc]

/-- **Marks at the end of a name are counted**, and the element type is that of the name without them. -/
theorem splitArray_marked (name : String) (n : Nat) :
    splitArray (name ++ String.join (List.replicate n "[]")) =
      (element name, dimensions name + n) := by
  have hmarks : (String.join (List.replicate n "[]")).toList.reverse =
      (List.replicate n [']', '[']).flatten := by
    rw [String.toList_join, List.flatMap_def, List.map_replicate, List.reverse_flatten,
      List.map_replicate, List.reverse_replicate]
    rfl
  rw [splitArray, String.toList_append, List.reverse_append, hmarks, stripArrayMarks_marked]
  rfl

/-- A type that PostgreSQL has in its list is no array. -/
theorem splitArray_postgresTypes {base : String} (h : (postgresTypes.lookup base).isSome) :
    splitArray base = (base, 0) := by
  have table : ∀ e ∈ postgresTypes, splitArray e.1 = (e.1, 0) := by decide +kernel
  obtain ⟨counter, hcounter⟩ := Option.isSome_iff_exists.1 h
  exact table (base, counter) (Sql.mem_of_lookup hcounter)

/-- The family of a column is that of its type, but for truth values and bit strings. -/
theorem Family.ofColumn_eq {c : Column} (htiny : c.rawType ≠ "tinyint") (hbit : c.rawType ≠ "bit") :
    Family.ofColumn c = (Family.ofType c.rawType).map fun f => if c.unsigned then f.widened else f := by
  simp [Family.ofColumn, Column.isTinyIntBool, htiny, hbit]

end Schemata.SqlType

namespace Schemata.Entity.Language

/-- The type of the elements of a column. -/
def elementType (l : Language) (c : Column) : LanguageType :=
  ((SqlType.Family.ofColumn c).map l.ofFamily).getD l.fallback

theorem arrayOf_eq_iterate (l : Language) (n : Nat) (text : String) :
    l.arrayOf n text = l.array^[n] text := by
  induction n with
  | zero => rfl
  | succ n ih => rw [Function.iterate_succ_apply', ← ih, arrayOf]

/-- **A language takes the array of the element type** as often as the type has dimensions. -/
theorem resolve_text (l : Language) (c : Column) :
    (l.resolve c).text = l.array^[SqlType.dimensions c.rawType] (l.elementType c).name := by
  rw [← arrayOf_eq_iterate]
  rfl

end Schemata.Entity.Language

namespace Schemata.Ddl.Mysql

open Schemata.SqlType Schemata.Sql

/-- **A column is a JSON document in MySQL** exactly if it is an array or holds one in PostgreSQL. -/
theorem chosenType_json_iff {c : Column} (h : isKnown .postgresql c.rawType) :
    (chosenType c).text = "JSON" ↔
      0 < dimensions c.rawType ∨ element c.rawType = "json" ∨ element c.rawType = "jsonb" := by
  have plain : ∀ e ∈ postgresTypes, e.2.render { name := "", rawType := "" } = "JSON" ↔
      e.1 = "json" ∨ e.1 = "jsonb" := by decide +kernel
  have named : ∀ e ∈ postgresTypes, e.2.params ≠ .drop →
      ¬(e.1 = "json" ∨ e.1 = "jsonb") ∧ e.2.name.toList.head?.any (· ≠ 'J') := by decide +kernel
  unfold chosenType
  split
  · rename_i hdim
    exact iff_of_true rfl (.inl hdim)
  · rename_i hdim
    obtain ⟨t, ht⟩ := Option.isSome_iff_exists.1 h
    have hcounter : counterpart .postgresql c = some t := ht
    have hmem : (element c.rawType, t) ∈ postgresTypes := mem_of_lookup ht
    rw [hcounter, or_iff_right hdim]
    show t.render c = "JSON" ↔ _
    rcases render_cases t c with hrender | ⟨hrule, params, -, hrender⟩
    · rw [hrender]
      exact plain (element c.rawType, t) hmem
    · obtain ⟨hother, hhead⟩ := named (element c.rawType, t) hmem hrule
      obtain ⟨ch, hch, hne⟩ := (Option.any_eq_true _ _).1 hhead
      refine iff_of_false (fun he => of_decide_eq_true hne ?_) hother
      rw [hrender] at he
      obtain ⟨cs, hcs⟩ : ∃ cs, t.name.toList = ch :: cs := ⟨_, (List.cons_head?_tail hch).symm⟩
      have hall := congrArg String.toList he
      rw [String.toList_append, hcs] at hall
      exact (List.cons.inj hall).1

end Schemata.Ddl.Mysql

namespace Schemata.Sql

open Schemata.SqlType Schemata.Text

variable {d : Dialect} {rules : Rules} {source : List Char} {name base : String} {t : Token}
  {ts r type marks rest more : List Token} {c : Column} {k : Nat} {ks : List TokenKind}

/-! ### Marks of dimensions -/

/-- Pairs of brackets, with anything between them. -/
inductive BracketPairs : Nat → List TokenKind → Prop
  | none : BracketPairs 0 []
  | pair {k : Nat} {inner ks : List TokenKind} (hinner : .rbracket ∉ inner) (h : BracketPairs k ks) :
      BracketPairs (k + 1) (.lbracket :: (inner ++ .rbracket :: ks))

/-- How `k` dimensions are marked: by as many pairs of brackets, or by the word `ARRAY` if it is one. -/
inductive MarksDimensions : Nat → List TokenKind → Prop
  | brackets {k : Nat} {ks : List TokenKind} (h : BracketPairs k ks) : MarksDimensions k ks
  | word {k : TokenKind} (h : k.keyword? = some "array") : MarksDimensions 1 [k]

/-- **Pairs of brackets are counted.** -/
theorem BracketPairs.arrayMarks_eq (h : BracketPairs k (marks.map Token.kind)) (hrest : EndsMarks rest) :
    arrayMarks (marks ++ rest) = (k, rest) := by
  generalize hks : marks.map Token.kind = ks at h
  induction h generalizing marks with
  | none =>
      obtain rfl : marks = [] := by simpa using hks
      exact hrest.arrayMarks_eq
  | @pair k inner ks hinner _ ih =>
      obtain ⟨opening, r, rfl, hopening, hr⟩ := List.map_eq_cons_iff.1 hks
      obtain ⟨between, closed, rfl, rfl, hclosed⟩ := List.map_eq_append_iff.1 hr
      obtain ⟨closing, marks, rfl, hclosing, hmarks⟩ := List.map_eq_cons_iff.1 hclosed
      have hbetween : ∀ u ∈ between, decide (u.kind ≠ .rbracket) := fun u hu =>
        decide_eq_true fun he => hinner (he ▸ List.mem_map_of_mem hu)
      have hskip : ((between ++ closing :: marks) ++ rest).dropWhile (·.kind ≠ .rbracket) =
          closing :: (marks ++ rest) := by
        rw [List.append_assoc, List.dropWhile_append_of_pos hbetween, List.cons_append,
          List.dropWhile_cons_of_neg (by simp [hclosing])]
      rw [List.cons_append, arrayMarks, if_pos hopening, hskip, List.drop_succ_cons, List.drop_zero, ih hmarks]

/-- **Marks of dimensions are counted.** -/
theorem MarksDimensions.arrayMarks_eq (h : MarksDimensions k (marks.map Token.kind))
    (hrest : EndsMarks rest) : arrayMarks (marks ++ rest) = (k, rest) := by
  generalize hks : marks.map Token.kind = ks at h
  cases h with
  | brackets h => exact BracketPairs.arrayMarks_eq (hks ▸ h) hrest
  | word hword =>
      obtain ⟨t, rfl, rfl⟩ := List.map_eq_singleton_iff.1 hks
      have harray : t.isKeyword "array" := by rw [isKeyword_eq, hword, beq_self_eq_true]
      have hbracket : t.kind ≠ .lbracket := by
        rintro he
        simp [he, TokenKind.keyword?] at hword
      rw [List.singleton_append, arrayMarks, if_neg hbracket, if_pos harray, hrest.arrayMarks_eq]

/-- A mark goes on no words. -/
theorem MarksDimensions.stopsWords (h : MarksDimensions k (marks.map Token.kind))
    (hrest : k = 0 → StopsWords rules rest) : StopsWords rules (marks ++ rest) := by
  generalize hks : marks.map Token.kind = ks at h
  cases h with
  | brackets h =>
      cases h with
      | none =>
          obtain rfl : marks = [] := by simpa using hks
          exact hrest rfl
      | pair =>
          obtain ⟨opening, r, rfl, hopening, -⟩ := List.map_eq_cons_iff.1 hks
          intro u hu
          obtain rfl : opening = u := Option.some.inj hu
          simp [Token.word?, hopening]
  | word hword =>
      obtain ⟨t, r, rfl, rfl, -⟩ := List.map_eq_cons_iff.1 hks
      intro u hu
      obtain rfl : t = u := Option.some.inj hu
      obtain ⟨w, hw, hlower⟩ := Option.map_eq_some_iff.1 ((keyword?_eq t).trans hword)
      refine ⟨by simp [kind_of_word? hw], fun v hv => .inr ?_⟩
      obtain rfl : w = v := Option.some.inj (hw.symm.trans hv)
      exact beq_iff_eq.2 hlower

/-! ### Types with marks -/

/-- Tokens that are read to their end as a type from the list of PostgreSQL, which leaves no parenthesis
open. -/
structure IsBaseType (source : List Char) (ts : List Token) (base : String) : Prop where
  reads : ∃ c, columnOfType? postgresRules source "" ts = some (c, []) ∧ c.rawType = base
  listed : (postgresTypes.lookup base).isSome
  balanced : IsBalanced (ts.map Token.kind)

/-- A type without marks of its own ends with its words and parameters. -/
theorem arrayMarks_eq_nil (h : arrayMarks ts = (0, [])) : ts = [] := by
  fun_cases arrayMarks ts with
  | case1 => rfl
  | case2 t r ht n rest hread =>
      rw [arrayMarks, if_pos ht, hread] at h
      simp at h
  | case3 t r ht harray n rest hread =>
      rw [arrayMarks, if_neg ht, if_pos harray, hread] at h
      simp at h
  | case4 t r ht harray =>
      rw [arrayMarks, if_neg ht, if_neg harray] at h
      simp at h

/-- **The name of a type keeps its marks.** -/
theorem IsBaseType.columnOfType?_eq (h : IsBaseType source type base)
    (hmarks : MarksDimensions k (marks.map Token.kind)) (hrest : EndsMarks rest)
    (hwords : k = 0 → StopsWords postgresRules rest) (name : String) :
    ∃ c : Column, c.rawType = base ++ String.join (List.replicate k "[]") ∧
      columnOfType? postgresRules source name (type ++ (marks ++ rest)) = some (c, rest) := by
  obtain ⟨c, hread, hbase⟩ := h.reads
  have hnamed := columnOfType?_named hread name
  rw [columnOfType?_stem] at hnamed
  obtain ⟨⟨stem, words, r⟩, hstem, he⟩ := Option.map_eq_some_iff.1 hnamed
  obtain ⟨hc, hnil⟩ := Prod.mk.inj he
  have hraw : typeName words (arrayMarks r).1 = base := by
    have hboth := congrArg Column.rawType hc
    dsimp only at hboth
    rw [hboth, hbase]
  -- a listed type has no marks of its own
  have hown : (arrayMarks r).1 = 0 := by
    have hsplit := splitArray_postgresTypes h.listed
    rw [← hraw, typeName, splitArray_marked] at hsplit
    exact (Nat.add_eq_zero_iff.1 (Prod.mk.inj hsplit).2).2
  obtain rfl : r = [] := arrayMarks_eq_nil (Prod.ext hown hnil)
  have hwhole := typeStem_more hstem (.inr ⟨hmarks.stopsWords hwords, h.balanced⟩)
  refine ⟨{ stem with rawType := typeName words k }, ?_, ?_⟩
  · show typeName words k = base ++ _
    rw [← hraw, hown, ← typeName_add, Nat.zero_add]
  · rw [columnOfType?_stem, hwhole, Option.map_some, List.nil_append]
    dsimp only
    rw [hmarks.arrayMarks_eq hrest]

/-! ### Columns of array types -/

/-- What becomes of a column whose type is written as `base` with marks of `k` dimensions. -/
structure CountsDimensions (c : Column) (base : String) (k : Nat) : Prop where
  rawType : c.rawType = base ++ String.join (List.replicate k "[]")
  /-- The name and the number of dimensions are read off the type. -/
  split : splitArray c.rawType = (base, k)
  /-- Every language takes the array of the element type that many times. -/
  wraps : ∀ l : Entity.Language, (l.resolve c).text = l.array^[k] (l.elementType c).name
  /-- The element type is that of a column of the type without marks, but for bit strings. -/
  element : base ≠ "bit" → ∀ l : Entity.Language, l.elementType c = l.elementType { c with rawType := base }
  /-- It is a JSON document in MySQL if there is a dimension, or if it is one in PostgreSQL. -/
  json : (Ddl.Mysql.chosenType c).text = "JSON" ↔ 0 < k ∨ base = "json" ∨ base = "jsonb"

/-- The name of a type decides what becomes of its column. -/
theorem countsDimensions_of_rawType (hlisted : (postgresTypes.lookup base).isSome)
    (h : c.rawType = base ++ String.join (List.replicate k "[]")) : CountsDimensions c base k := by
  have hbase := splitArray_postgresTypes hlisted
  have hsplit : splitArray c.rawType = (base, k) := by
    rw [h, splitArray_marked, element, dimensions, hbase, Nat.zero_add]
  have helement : SqlType.element c.rawType = base := congrArg Prod.fst hsplit
  have hdimensions : dimensions c.rawType = k := congrArg Prod.snd hsplit
  have htiny : base ≠ "tinyint" := by
    rintro rfl
    exact absurd hlisted (by decide)
  -- a plain name that the type is equal to is its base
  have other : ∀ {name : String}, splitArray name = (name, 0) → base ≠ name → c.rawType ≠ name := by
    rintro name hname hne rfl
    exact hne (congrArg Prod.fst (hsplit.symm.trans hname))
  refine ⟨h, hsplit, fun l => ?_, fun hbit l => ?_, ?_⟩
  · rw [l.resolve_text, hdimensions]
  · have hmarked := Family.ofColumn_eq (other (by decide) htiny) (other (by decide) hbit)
    have hplain := Family.ofColumn_eq (c := { c with rawType := base }) htiny hbit
    have hself : SqlType.element base = base := congrArg Prod.fst hbase
    have hfamily : Family.ofColumn c = Family.ofColumn { c with rawType := base } := by
      rw [hmarked, hplain, Family.ofType, Family.ofType, helement, hself]
    rw [Entity.Language.elementType, Entity.Language.elementType, hfamily]
  · rw [Ddl.Mysql.chosenType_json_iff (by rw [isKnown, helement]; exact hlisted), helement, hdimensions]

/-- **Dimensions are counted as they are written**: a name, a listed type, marks of its dimensions and
anything after them that goes on neither declare a column of that many dimensions. -/
theorem countsDimensions_of_marks (htype : IsBaseType source type base)
    (hmarks : MarksDimensions k (marks.map Token.kind)) (hrest : EndsMarks rest)
    (hwords : k = 0 → StopsWords postgresRules rest) (hname : t.ident? = some name) (hne : name ≠ "") :
    ∃ c primary unique notices, c.name = name ∧ CountsDimensions c base k ∧
      columnDefinition? postgresRules source (t :: (type ++ (marks ++ rest))) =
        some (.column c primary unique notices) ∧
      (TakenForColumn postgresRules (t :: (type ++ (marks ++ rest))) →
        Definition.ofTokens postgresRules source (t :: (type ++ (marks ++ rest))) =
          .column c primary unique notices) := by
  obtain ⟨typed, hraw, hread⟩ := htype.columnOfType?_eq hmarks hrest hwords name
  have hcolumn : columnDefinition? postgresRules source (t :: (type ++ (marks ++ rest))) =
      some (Ddl.columnOf postgresRules
        ((attributes postgresRules source rest).foldl Declaration.add { column := typed })) := by
    rw [columnDefinition?]
    simp only [hname, String.isEmpty_iff, hne, if_false, hread, Option.map_some]
    rfl
  have hkept := foldl_add_column (attributes postgresRules source rest) { column := typed }
  refine ⟨_, _, _, _, ?_, countsDimensions_of_rawType htype.listed ?_, hcolumn, fun h =>
    h.ofTokens_eq hcolumn⟩
  · rw [settle_keeps (f := Column.name) fun _ => rfl, hkept.1]
    exact (columnOfType?_some hread).1
  · rw [settle_keeps (f := Column.rawType) fun _ => rfl, hkept.2]
    exact hraw

/-- The definition of a column of two dimensions. -/
def codesText : List Char := "codes character varying(9)[][3] NOT NULL".toList

/-- The tokens of its type. -/
def codesType : List Token :=
  [⟨.word "character", ⟨6, 15⟩⟩, ⟨.word "varying", ⟨16, 23⟩⟩, ⟨.lparen, ⟨23, 24⟩⟩, ⟨.number "9", ⟨24, 25⟩⟩,
    ⟨.rparen, ⟨25, 26⟩⟩]

/-- The tokens of its dimensions. -/
def codesMarks : List Token :=
  [⟨.lbracket, ⟨26, 27⟩⟩, ⟨.rbracket, ⟨27, 28⟩⟩, ⟨.lbracket, ⟨28, 29⟩⟩, ⟨.number "3", ⟨29, 30⟩⟩,
    ⟨.rbracket, ⟨30, 31⟩⟩]

/-- The tokens of its attribute. -/
def codesRest : List Token := [⟨.word "NOT", ⟨32, 35⟩⟩, ⟨.word "NULL", ⟨36, 40⟩⟩]

theorem countsDimensions_codes :
    tokenize postgresRules codesText =
      .ok (⟨.word "codes", ⟨0, 5⟩⟩ :: (codesType ++ (codesMarks ++ codesRest))) ∧
    ∃ c primary unique notices, c.name = "codes" ∧ CountsDimensions c "varchar" 2 ∧
      Definition.ofTokens postgresRules codesText
        (⟨.word "codes", ⟨0, 5⟩⟩ :: (codesType ++ (codesMarks ++ codesRest))) =
          .column c primary unique notices := by
  have htype : IsBaseType codesText codesType "varchar" :=
    ⟨⟨{ name := "", rawType := "varchar", length := some "9" }, by decide +kernel, rfl⟩, by decide,
      rfl⟩
  have hsecond : BracketPairs 1 (.lbracket :: ([.number "3"] ++ [.rbracket])) := .pair (by simp) .none
  have hfirst : BracketPairs 2 (.lbracket :: ([] ++ .rbracket :: _)) := .pair (by simp) hsecond
  have hmarks : MarksDimensions 2 (codesMarks.map Token.kind) := .brackets hfirst
  have hrest : EndsMarks codesRest := by
    intro t ht
    obtain rfl := Option.some.inj ht
    exact ⟨by decide, by decide⟩
  have hident : Token.ident? ⟨.word "codes", ⟨0, 5⟩⟩ = some "codes" := rfl
  obtain ⟨c, primary, unique, notices, hname, hcounts, -, htaken⟩ :=
    countsDimensions_of_marks htype hmarks hrest (by simp) hident (by decide)
  exact ⟨by decide +kernel, c, primary, unique, notices, hname, hcounts, htaken ⟨by decide, by decide⟩⟩

/-- A type that is a JSON document in PostgreSQL is one in MySQL without being an array, the word `ARRAY` and
brackets are counted both, and the elements of an array of bit strings are taken for truth values. -/
theorem notes_dimensions : ∃ tables,
    parseAll .postgresql "CREATE TABLE notes (body json, codes integer ARRAY[3], flags bit(8)[])" = .ok tables ∧
      ∃ t ∈ tables, ∃ body ∈ t.columns, ∃ codes ∈ t.columns, ∃ flags ∈ t.columns,
        dimensions body.rawType = 0 ∧ (Ddl.Mysql.chosenType body).text = "JSON" ∧
        codes.rawType = "integer[][]" ∧
        flags.rawType = "bit[]" ∧ (Entity.Python.language.resolve flags).text = "list[bool]" ∧
        (Entity.Python.language.resolve { flags with rawType := "bit" }).text = "bytes" := by
  have hread : parseAll .postgresql
      "CREATE TABLE notes (body json, codes integer ARRAY[3], flags bit(8)[])" =
        .ok [{ dialect := .postgresql
               name := "notes"
               columns := [{ name := "body", rawType := "json" },
                 { name := "codes", rawType := "integer[][]" },
                 { name := "flags", rawType := "bit[]", length := some "8" }] }] := by decide +kernel
  refine ⟨_, hread, _, List.mem_singleton.2 rfl, _, List.mem_cons_self, _,
    List.mem_cons_of_mem _ List.mem_cons_self, _,
    List.mem_cons_of_mem _ (List.mem_cons_of_mem _ (List.mem_singleton.2 rfl)), ?_⟩
  decide +kernel

end Schemata.Sql
