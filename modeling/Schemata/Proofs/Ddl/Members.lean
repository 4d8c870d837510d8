import Mathlib.Order.Bounds.Defs
import Schemata.Proofs.Ddl.Numbering
import Schemata.Proofs.Ddl.Columns

/-! # Enumerations in PostgreSQL

An enumeration of MySQL becomes text in PostgreSQL.  Its length is the least one that every member fits
in (`isLeast_memberWidth`), and a check lists the members as string literals, which are read back
whatever characters they have, so that exactly the members are admitted (`admitsMembers_columnLine`). -/

namespace Schemata.Ddl.Postgres

open Schemata.Sql Schemata.SqlType

variable {c : Column} {members : List String} {tokens : List Token}

/-! ### Lengths -/

theorem foldl_max_le_iff {l : List Nat} {a n : Nat} :
    l.foldl max a ≤ n ↔ a ≤ n ∧ ∀ m ∈ l, m ≤ n := by
  induction l generalizing a with
  | nil => simp
  | cons b l ih => rw [List.foldl_cons, ih, Nat.max_le, List.forall_mem_cons, and_assoc]

theorem memberWidth_le_iff {n : Nat} : memberWidth members ≤ n ↔ 1 ≤ n ∧ ∀ m ∈ members, m.length ≤ n := by
  rw [memberWidth, foldl_max_le_iff, List.forall_mem_map]

/-- **The width of an enumeration** is the least length of a text that every member fits in. -/
theorem isLeast_memberWidth (members : List String) :
    IsLeast {n | 1 ≤ n ∧ ∀ m ∈ members, m.length ≤ n} (memberWidth members) :=
  ⟨memberWidth_le_iff.1 le_rfl, fun _ hn => memberWidth_le_iff.2 hn⟩

/-! ### Types -/

/-- Text of bounded length is not numbered. -/
theorem serialOf_varchar (params : String) : serialOf ("VARCHAR" ++ params) = none := by
  cases hserial : serialOf ("VARCHAR" ++ params) with
  | none => rfl
  | some serial =>
      have hmem := mem_of_lookup hserial
      have table : ∀ e ∈ [("BIGINT", "BIGSERIAL"), ("NUMERIC(20)", "BIGSERIAL"), ("BIGSERIAL", "BIGSERIAL"),
          ("SMALLINT", "SMALLSERIAL"), ("INTEGER", "SERIAL")], e.1.toList.head? ≠ some 'V' := by decide
      exact absurd (by simp) (table _ hmem)

/-- An enumeration is text of bounded length, with and without `AUTO_INCREMENT`. -/
theorem chosenType_enum (h : c.rawType = "enum") :
    (chosenType c).text = "VARCHAR(" ++ toString (memberWidth c.members) ++ ")" := by
  have hvalue : valueType c = "VARCHAR(" ++ toString (memberWidth c.members) ++ ")" := by
    rw [valueType, if_pos (by simp [h])]
  have hserial : serialOf (valueType c) = none := by
    have hsplit : "VARCHAR(" = "VARCHAR" ++ "(" := rfl
    rw [hvalue, hsplit, String.append_assoc, String.append_assoc]
    exact serialOf_varchar _
  have hbool : c.isTinyIntBool = false := by simp [Column.isTinyIntBool, h]
  rw [chosenType, hbool, hserial, ← hvalue]
  cases c.autoIncrement <;> rfl

/-! ### Checks -/

/-- The list of the members in a check. -/
def memberList (members : List String) : String :=
  "(" ++ ", ".intercalate (members.map literalForPostgres) ++ ")"

/-- The check that keeps a column to the members of an enumeration. -/
def memberCheck (c : Column) : String :=
  "CHECK (" ++ nameForPostgres c.name ++ " IN " ++ memberList c.members ++ ")"

/-- The kinds of the tokens of a list of members. -/
def memberKinds (members : List String) : List TokenKind :=
  .lparen :: ([.comma].intercalate (members.map ([.stringLit ·])) ++ [.rparen])

/-- What is taken from the literals of a list and not from its commas. -/
theorem filterMap_listed {f : TokenKind → Option String} (hcomma : f .comma = none)
    (hliteral : ∀ m, f (.stringLit m) = some m) :
    ([TokenKind.comma].intercalate (members.map ([.stringLit ·]))).filterMap f = members := by
  induction members with
  | nil => rfl
  | cons m members ih =>
      cases members with
      | nil => simp [hliteral]
      | cons m' members =>
          rw [List.map_cons] at ih
          rw [List.map_cons, List.map_cons, List.intercalate_cons_cons, List.filterMap_append, ih]
          simp [hcomma, hliteral]

/-- The strings among the tokens of a list of members are the members. -/
theorem filterMap_string?_of_kinds {tokens : List Token}
    (h : tokens.map Token.kind = memberKinds members) :
    tokens.filterMap Token.string? = members := by
  have hkinds : tokens.filterMap Token.string? =
      (tokens.map Token.kind).filterMap fun kind => Token.string? ⟨kind, ⟨0, 0⟩⟩ := by
    rw [List.filterMap_map]
    rfl
  rw [hkinds, h, memberKinds, List.filterMap_cons, List.filterMap_append,
    filterMap_listed rfl fun _ => rfl]
  exact List.append_nil members

/-- The check comes last in the declaration of an enumeration. -/
theorem text_columnLine_enum (t : Table) (h : c.rawType = "enum") (hne : c.members ≠ []) :
    ∃ between, (columnLine t c).text postgresSpelling =
      nameForPostgres c.name ++ " " ++ (columnLine t c).type ++ between ++ " " ++ memberCheck c := by
  have hclauses : ∃ before, (columnLine t c).clauses = before ++ [.memberOf c.members] :=
    ⟨keyClauses t c (chosenType c) ++ defaultClauses (default? c (chosenType c)), by
      simp [columnLine, memberClauses, h, hne]⟩
  obtain ⟨before, hbefore⟩ := hclauses
  refine ⟨String.ofList (clausesText .postgresql c.name before), String.toList_injective ?_⟩
  have hline := toList_columnLine .postgresql (columnLine t c)
  rw [hbefore] at hline
  simpa [clausesText, spellingOf, postgresSpelling, ColumnClause.text, memberCheck, memberList,
    columnLine] using hline

/-- How a column of an enumeration with these members is written, whose longest member is that long. -/
structure AdmitsMembers (t : Table) (c : Column) (width : Nat) : Prop where
  /-- The type is text of this length. -/
  type : (columnLine t c).type = "VARCHAR(" ++ toString width ++ ")"
  /-- It is the least positive length of a text that every member fits in. -/
  least : IsLeast {n | 1 ≤ n ∧ ∀ m ∈ c.members, m.length ≤ n} width
  /-- The declaration is the name, the type, other clauses and the check. -/
  written : ∃ between, (columnLine t c).text postgresSpelling =
    nameForPostgres c.name ++ " " ++ (columnLine t c).type ++ between ++ " " ++ memberCheck c
  /-- The name is one token, which is read as the name of the column. -/
  name : ∃ u, tokenize postgresRules (nameForPostgres c.name).toList = .ok [u] ∧
    u.ident? = some c.name
  /-- The list is read as the members, one string after the other, with commas between them. -/
  list : ∃ tokens, tokenize postgresRules (memberList c.members).toList = .ok tokens ∧
    tokens.map Token.kind = memberKinds c.members ∧ tokens.filterMap Token.string? = c.members
  /-- In the check the name and the list are read as they are alone. -/
  check : ∃ tokens, tokenize postgresRules (memberCheck c).toList = .ok tokens ∧
    tokens.map Token.kind = [.word "CHECK", .lparen, nameKind c.name, .word "IN"] ++
      memberKinds c.members ++ [.rparen]

/-- **Enumerations admit exactly their members**: the type is the shortest that every member fits in,
and the check is read as a comparison of the column with the members, whatever characters they have. -/
theorem admitsMembers_columnLine (t : Table) (h : c.rawType = "enum") (hne : c.members ≠ []) :
    AdmitsMembers t c (memberWidth c.members) where
  type := chosenType_enum h
  least := isLeast_memberWidth c.members
  written := text_columnLine_enum t h hne
  name := by
    obtain ⟨tokens, htokens, hkinds⟩ := (gives_name .postgresql c.name).tokenize
    obtain ⟨u, rfl, hu⟩ : ∃ u, tokens = [u] ∧ u.kind = identKind .postgresql c.name := by
      simpa using hkinds
    exact ⟨u, htokens, ident?_identKind .postgresql hu⟩
  list := by
    obtain ⟨tokens, htokens, hkinds⟩ := (gives_literals .postgresql c.members).tokenize
    exact ⟨tokens, htokens, hkinds, filterMap_string?_of_kinds hkinds⟩
  check := by
    have hgives : Gives .postgresql (memberCheck c).toList
        (clauseKinds .postgresql c.name [] (.memberOf c.members)) := by
      have hclause : Gives .postgresql (ColumnClause.text (spellingOf .postgresql) c.name
          (.memberOf c.members)).toList (clauseKinds .postgresql c.name [] (.memberOf c.members)) :=
        gives_clause (by simp)
      simpa [memberCheck, memberList, ColumnClause.text, spellingOf, postgresSpelling] using hclause
    obtain ⟨tokens, htokens, hkinds⟩ := hgives.tokenize
    refine ⟨tokens, htokens, hkinds.trans ?_⟩
    simp [clauseKinds, identKind, memberKinds]

/-- An enumeration whose members have what separates, closes or escapes members. -/
def marks : Column where
  name := "Order"
  rawType := "enum"
  members := ["", "it's", "a,b", "('x')", "\\", "größe"]

theorem admitsMembers_marks :
    marks.rawType = "enum" ∧ marks.members ≠ [] ∧ memberWidth marks.members = 5 ∧
      AdmitsMembers { dialect := .mysql, name := "goods", columns := [marks] } marks
        (memberWidth marks.members) :=
  ⟨rfl, by decide, by decide, admitsMembers_columnLine _ rfl (by decide)⟩

end Schemata.Ddl.Postgres
