import Schemata.Entity.Dataclass
import Schemata.Proofs.Entity.FieldNames
import Schemata.Proofs.Entity.MappedColumns

/-! # Lines of classes in Python

Both kinds of classes end with a line for each column, in order, which declares its attribute
(`declares_dataclass`, `declares_mappedClass`).  Types, arguments and comments have no line feeds of their own,
so each of these lines ends where it should. -/

namespace Schemata.Entity.Python

open Schemata.Text

variable {a b : String} {t : Table}

/-! ### Lines of a class -/

/-- The name of the attribute that a line declares: what stands between four blanks and a colon. -/
def declaredName? (line : List Char) : Option (List Char) :=
  let name := (line.drop 4).takeWhile isIdentifierChar
  if "    ".toList ++ (name ++ [':']) <+: line then some name else none

/-- A line that declares an attribute. -/
structure IsAttributeLine (name line : String) : Prop where
  declares : declaredName? line.toList = some name.toList
  ends : ∃ body, line.toList = body ++ ['\n'] ∧ '\n' ∉ body

theorem isAttributeLine {name rest : String} (hname : ∀ c ∈ name.toList, isIdentifierChar c)
    (hrest : '\n' ∉ rest.toList) : IsAttributeLine name ("    " ++ name ++ ":" ++ rest ++ "\n") := by
  have hline : ("    " ++ name ++ ":" ++ rest ++ "\n").toList =
      "    ".toList ++ (name.toList ++ ':' :: (rest.toList ++ ['\n'])) := by
    simp only [String.toList_append, List.append_assoc]
    rfl
  have hdeclared : (name.toList ++ ':' :: (rest.toList ++ ['\n'])).takeWhile isIdentifierChar = name.toList :=
    Sql.takeWhile_append_of_head hname (by simp; decide)
  have hdrop : ("    ".toList ++ (name.toList ++ ':' :: (rest.toList ++ ['\n']))).drop 4 =
      name.toList ++ ':' :: (rest.toList ++ ['\n']) := rfl
  have hfeed : '\n' ∉ name.toList := fun hmem => absurd (hname _ hmem) (by decide)
  constructor
  · rw [hline, declaredName?, hdrop, hdeclared, if_pos]
    exact List.prefix_append_right_inj _ |>.2 (by simp)
  · refine ⟨"    ".toList ++ (name.toList ++ ':' :: rest.toList), by rw [hline]; simp, ?_⟩
    simp [hfeed, hrest]

/-- The names of the attributes for the columns of a table. -/
def attributeNames (t : Table) : List String := t.columns.map fun c => attributeName c.name

/-- A text whose last line has its line feed. -/
def EndsWithFeed (s : String) : Prop := s.toList.getLast? = some '\n'

/-- A text that ends with a line for each column, in order, which declares its attribute. -/
def Declares (t : Table) (source : String) : Prop :=
  ∃ front lines, source = front ++ String.join lines ∧ EndsWithFeed front ∧
    List.Forall₂ IsAttributeLine (attributeNames t) lines

theorem declares_append {front : String} {line : Column → String} (hfront : EndsWithFeed front)
    (h : ∀ c ∈ t.columns, IsAttributeLine (attributeName c.name) (line c)) :
    Declares t (front ++ String.join (t.columns.map line)) := by
  refine ⟨front, _, rfl, hfront, ?_⟩
  rw [attributeNames, List.forall₂_map_left_iff, List.forall₂_map_right_iff, List.forall₂_same]
  exact h

/-! ### Line feeds -/

theorem isTypeNameChar_attributeType (t : Table) (c : Column) :
    ∀ x ∈ (attributeType t c).toList, isTypeNameChar x := by
  have htype : ∀ x ∈ (language.resolve c).text.toList, isTypeNameChar x := by
    refine Language.forall_mem_resolve (fun family => ?_) (by decide) (fun element helement => ?_) c
    · cases family <;> decide
    · have harray : language.array element = "list[" ++ element ++ "]" := rfl
      simp only [harray, isTypeNameChar_append]
      exact ⟨⟨by decide, helement⟩, by decide⟩
  simp only [attributeType, optional]
  split
  · simp only [isTypeNameChar_append]
    exact ⟨⟨by decide, htype⟩, by decide⟩
  · exact htype

theorem feed_not_mem_attributeType (t : Table) (c : Column) : '\n' ∉ (attributeType t c).toList :=
  not_mem_of_isTypeNameChar (isTypeNameChar_attributeType t c) (by decide)

theorem endsWithFeed_append (a : String) (h : EndsWithFeed b) : EndsWithFeed (a ++ b) := by
  rw [EndsWithFeed, String.toList_append, List.getLast?_append, h]
  rfl

theorem EndsWithFeed.append (ha : EndsWithFeed a) (hb : b = "" ∨ EndsWithFeed b) : EndsWithFeed (a ++ b) := by
  rcases hb with rfl | hb
  · rwa [String.append_empty]
  · exact endsWithFeed_append a hb

/-! ### Data classes -/

/-- The line of a data class for a column: a name, a type, perhaps a default, and perhaps a comment. -/
theorem attributeText_dataclass (t : Table) (c : Column) : Dataclass.attributeText t c =
    "    " ++ attributeName c.name ++ ": " ++ attributeType t c ++ (if t.isOptional c then " = None" else "") ++
      ((t.commentFor c).map fun comment => "  # " ++ onOneLine comment).getD "" ++ "\n" := by
  rw [Dataclass.attributeText]
  cases t.commentFor c with
  | none => simp [withComment]
  | some comment => simp [withComment, String.append_assoc]

theorem isAttributeLine_dataclass (t : Table) (c : Column) :
    IsAttributeLine (attributeName c.name) (Dataclass.attributeText t c) := by
  have hend : '\n' ∉ (if t.isOptional c then " = None" else "").toList := by split <;> decide
  have hcomment :
      '\n' ∉ (((t.commentFor c).map fun comment => "  # " ++ onOneLine comment).getD "").toList := by
    cases t.commentFor c with
    | none => decide
    | some comment => exact feed_not_mem_append.2 ⟨by decide, feed_not_mem_onOneLine comment⟩
  have hline : Dataclass.attributeText t c = "    " ++ attributeName c.name ++ ":" ++
      (" " ++ attributeType t c ++ (if t.isOptional c then " = None" else "") ++
        ((t.commentFor c).map fun comment => "  # " ++ onOneLine comment).getD "") ++ "\n" := by
    have hcolon : ": " = ":" ++ " " := rfl
    rw [attributeText_dataclass, hcolon]
    simp only [String.append_assoc]
  rw [hline]
  refine isAttributeLine (isIdentifierChar_safeIdentifier _ _) ?_
  simp only [feed_not_mem_append]
  exact ⟨⟨⟨by decide, feed_not_mem_attributeType t c⟩, hend⟩, hcomment⟩

/-- The lines of the fields of a data class come last. -/
theorem exists_front_dataclass (options : Options) (t : Table) : ∃ front, Dataclass.text options t =
    front ++ String.join (t.columns.map (Dataclass.attributeText t)) ∧ EndsWithFeed front := by
  have hdoc : classDocstring t = "" ∨ EndsWithFeed (classDocstring t) := by
    rw [classDocstring]
    cases t.comment with
    | none => exact .inl rfl
    | some comment => exact .inr (endsWithFeed_append _ rfl)
  have hpass : (if t.columns.isEmpty then "    pass\n" else "") = "" ∨
      EndsWithFeed (if t.columns.isEmpty then "    pass\n" else "") := by
    split
    · exact .inr rfl
    · exact .inl rfl
  refine ⟨_, rfl, EndsWithFeed.append (EndsWithFeed.append ?_ hdoc) hpass⟩
  exact endsWithFeed_append _ rfl

theorem declares_dataclass (options : Options) (t : Table) : Declares t (Dataclass.text options t) := by
  obtain ⟨front, htext, hfront⟩ := exists_front_dataclass options t
  rw [htext]
  exact declares_append hfront fun c _ => isAttributeLine_dataclass t c

/-! ### Mapped classes -/

theorem feed_not_mem_columnArguments (t : Table) (c : Column) :
    ∀ argument ∈ MappedClass.columnArguments t c, '\n' ∉ argument.toList := by
  intro argument hmem
  have hflags : ∀ flag ∈ MappedClass.flagArguments, '\n' ∉ flag.toList := by decide
  cases MappedClass.isArgument_of_mem argument hmem with
  | name => exact feed_not_mem_stringLiteral c.name
  | type => exact fun hfeed => absurd (MappedClass.isTypeChar_columnType c _ hfeed) (by decide)
  | flag h => exact hflags argument h
  | value => exact feed_not_mem_append.2 ⟨by decide, feed_not_mem_stringLiteral _⟩
  | expression =>
      simp only [feed_not_mem_append]
      exact ⟨⟨by decide, feed_not_mem_stringLiteral _⟩, by decide⟩
  | comment => exact feed_not_mem_append.2 ⟨by decide, feed_not_mem_stringLiteral _⟩

theorem isAttributeLine_mappedClass (t : Table) (c : Column) :
    IsAttributeLine (attributeName c.name) (MappedClass.attributeText t c) := by
  have harguments := feed_not_mem_intercalate (feed_not_mem_columnArguments t c)
  have hline : MappedClass.attributeText t c = "    " ++ attributeName c.name ++ ":" ++
      (" Mapped[" ++ attributeType t c ++ "] = mapped_column(" ++
        ", ".intercalate (MappedClass.columnArguments t c) ++ ")") ++ "\n" := by
    rw [MappedClass.attributeText, ← String.toList_inj]
    simp [String.toList_append]
  rw [hline]
  refine isAttributeLine (isIdentifierChar_safeIdentifier _ _) ?_
  simp only [feed_not_mem_append]
  exact ⟨⟨⟨⟨by decide, feed_not_mem_attributeType t c⟩, by decide⟩, harguments⟩, by decide⟩

theorem declares_mappedClass (options : Options) (t : Table) : Declares t (MappedClass.text options t) := by
  have hempty : (if t.columns.isEmpty then "" else "\n") = "" ∨
      EndsWithFeed (if t.columns.isEmpty then "" else "\n") := by
    split
    · exact .inl rfl
    · exact .inr rfl
  refine declares_append (EndsWithFeed.append ?_ hempty) fun c _ => isAttributeLine_mappedClass t c
  exact endsWithFeed_append _ rfl

end Schemata.Entity.Python
