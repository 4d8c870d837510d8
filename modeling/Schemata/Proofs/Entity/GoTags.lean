import Schemata.Proofs.Entity.GoLiterals
import Schemata.Proofs.Entity.OneLine

/-! # Tags in Go

The tags of a field stand between back quotes, and each value between quotes.  The name, the default and the
comment of a column are rewritten before they are put into a tag, so that no character of theirs ends it, but
the type with its parameters is put there as it is: whatever ends a tag, a value or a part of one comes from
the type (`exists_mem_gormParts_ending`).  `texts_in_literals` says this of a whole struct, and when the name
of the table is returned. -/

namespace Schemata.Entity.Go

open Schemata.Text

variable {gorm : Bool} {options : Options} {t : Table} {c : Column} {x : Char}

/-! ### Values -/

/-- The characters that end a value, or a part of it, or the tags. -/
def endingChars : List Char := ['"', '\x60', ';', '\n', '\r']

theorem tagChar_not_mem (c : Char) : tagChar c ∉ endingChars := by
  have table : ∀ d ∈ ['\'', ',', ' '], d ∉ endingChars := by decide
  unfold tagChar
  split_ifs with hquote hpart hline
  · exact table _ (by simp)
  · exact table _ (by simp)
  · exact table _ (by simp)
  · simp only [endingChars, List.mem_cons, List.not_mem_nil, or_false, not_or]
    tauto

theorem tagChar_eq_slash_iff {c : Char} : tagChar c = '\\' ↔ c = '\\' := by
  unfold tagChar
  split_ifs with hquote hpart hline
  · rcases hquote with rfl | rfl <;> decide
  · subst hpart
    decide
  · rcases hline with rfl | rfl <;> decide
  · rfl

/-- No value has a character that ends one. -/
theorem not_mem_tagValue (hx : x ∈ endingChars) (s : String) : x ∉ (tagValue s).toList := by
  rw [tagValue, String.toList_ofList, List.mem_map]
  rintro ⟨c, -, rfl⟩
  exact tagChar_not_mem c hx

/-- Backslashes are kept. -/
theorem slash_mem_tagValue_iff (s : String) : '\\' ∈ (tagValue s).toList ↔ '\\' ∈ s.toList := by
  rw [tagValue, String.toList_ofList, List.mem_map]
  constructor
  · rintro ⟨c, hc, he⟩
    rwa [← tagChar_eq_slash_iff.1 he]
  · exact fun h => ⟨'\\', h, by decide⟩

/-! ### Parts -/

/-- The type with its parameters, which is put into a tag as it is. -/
def typeText (c : Column) : String := (c.typeParams.map (c.rawType ++ ·)).getD ""

/-- The characters of a text that may be missing. -/
def chars (text : Option String) : List Char := (text.getD "").toList

/-- A label with a text after it, which may be missing, has the characters of the text. -/
theorem exists_mem_labelled {label : String} (h : x ∉ label.toList) (text : Option String) :
    (∃ part ∈ (text.map (label ++ ·)).toList, x ∈ part.toList) ↔ x ∈ chars text := by
  cases text with
  | none => simp [chars]
  | some s => simp [chars, h]

theorem not_exists_mem_word {word : String} (h : x ∉ word.toList) (p : Bool) :
    ¬∃ part ∈ (if p then [word] else []), x ∈ part.toList := by
  cases p <;> simp [h]

/-- The parts of a tag are words and labelled texts. -/
theorem gormParts_eq (t : Table) (c : Column) :
    gormParts t c =
      ((some (tagValue c.name)).map ("column:" ++ ·)).toList ++
        ((if t.isPrimaryKey c.name then ["primaryKey"] else []) ++
        ((if c.autoIncrement then ["autoIncrement"] else []) ++
        (((c.typeParams.map (c.rawType ++ ·)).map ("type:" ++ ·)).toList ++
        ((if c.notNull && !t.isPrimaryKey c.name then ["not null"] else []) ++
        ((if t.isUniqueAlone c.name then ["unique"] else []) ++
        (((c.defaultValue.map tagValue).map ("default:" ++ ·)).toList ++
          (((t.commentFor c).map tagValue).map ("comment:" ++ ·)).toList)))))) := by
  have htype : (c.typeParams.map fun params => "type:" ++ c.rawType ++ params) =
      (c.typeParams.map (c.rawType ++ ·)).map ("type:" ++ ·) := by
    simp [Function.comp_def, String.append_assoc]
  simp only [gormParts, htype, Option.map_map, List.append_assoc]
  rfl

theorem exists_mem_gormParts (hx : x ∈ '\\' :: endingChars) :
    (∃ part ∈ gormParts t c, x ∈ part.toList) ↔
      x ∈ (tagValue c.name).toList ∨ x ∈ (typeText c).toList ∨
        x ∈ chars (c.defaultValue.map tagValue) ∨ x ∈ chars ((t.commentFor c).map tagValue) := by
  have fixed : ∀ text ∈ ["column:", "primaryKey", "autoIncrement", "type:", "not null", "unique", "default:",
      "comment:"], x ∉ text.toList := by
    revert x
    decide
  rw [gormParts_eq]
  simp only [List.mem_append, or_and_right, exists_or, exists_mem_labelled (fixed "column:" (by simp)),
    exists_mem_labelled (fixed "type:" (by simp)), exists_mem_labelled (fixed "default:" (by simp)),
    exists_mem_labelled (fixed "comment:" (by simp)), not_exists_mem_word (fixed "primaryKey" (by simp)),
    not_exists_mem_word (fixed "autoIncrement" (by simp)), not_exists_mem_word (fixed "not null" (by simp)),
    not_exists_mem_word (fixed "unique" (by simp)), false_or]
  rfl

/-- No part but the type has a character that ends a part or a value. -/
theorem exists_mem_gormParts_ending (hx : x ∈ endingChars) :
    (∃ part ∈ gormParts t c, x ∈ part.toList) ↔ x ∈ (typeText c).toList := by
  have hnone : ∀ text : Option String, x ∉ chars (text.map tagValue) := by
    intro text
    cases text with
    | none => simp [chars]
    | some s => exact not_mem_tagValue hx s
  rw [exists_mem_gormParts (List.mem_cons_of_mem _ hx)]
  simp [not_mem_tagValue hx, hnone]

/-- Backslashes of any part are kept. -/
theorem exists_slash_mem_gormParts :
    (∃ part ∈ gormParts t c, '\\' ∈ part.toList) ↔
      '\\' ∈ c.name.toList ∨ '\\' ∈ (typeText c).toList ∨ '\\' ∈ chars c.defaultValue ∨
        '\\' ∈ chars (t.commentFor c) := by
  have hmap : ∀ text : Option String, '\\' ∈ chars (text.map tagValue) ↔ '\\' ∈ chars text := by
    intro text
    cases text with
    | none => rfl
    | some s => exact slash_mem_tagValue_iff s
  rw [exists_mem_gormParts (by simp), slash_mem_tagValue_iff, hmap, hmap]

theorem toList_gormTag (t : Table) (c : Column) :
    (gormTag t c).toList = [';'].intercalate ((gormParts t c).map String.toList) :=
  String.toList_intercalate

theorem mem_gormTag_iff (hx : x ≠ ';') :
    x ∈ (gormTag t c).toList ↔ ∃ part ∈ gormParts t c, x ∈ part.toList := by
  rw [toList_gormTag, mem_intercalate_iff hx]
  simp

/-! ### Splitting tags -/

theorem not_mem_of_mem_splitOn {a : Char} {part cs : List Char} (h : part ∈ cs.splitOn a) : a ∉ part := by
  induction cs generalizing part with
  | nil =>
      rw [List.splitOn_nil, List.mem_singleton] at h
      simp [h]
  | cons d r ih =>
      rw [List.splitOn_cons_eq_if_modifyHead] at h
      split at h
      · rcases List.mem_cons.1 h with rfl | h
        · simp
        · exact ih h
      · rename_i hd
        obtain ⟨first, others, hparts⟩ := List.exists_cons_of_ne_nil (List.splitOn_ne_nil a r)
        rw [hparts] at h ih
        rcases List.mem_cons.1 h with rfl | h
        · have hne : a ≠ d := fun he => hd (by simp [he])
          simpa [hne] using ih (List.mem_cons_self ..)
        · exact ih (List.mem_cons_of_mem _ h)

theorem gormParts_ne_nil (t : Table) (c : Column) : gormParts t c ≠ [] := by
  simp [gormParts]

/-- **A tag falls apart into its parts** exactly if the type has no semicolon. -/
theorem splitOn_gormTag_iff :
    (gormTag t c).toList.splitOn ';' = (gormParts t c).map String.toList ↔ ';' ∉ (typeText c).toList := by
  rw [← exists_mem_gormParts_ending (t := t) (by decide), toList_gormTag]
  constructor
  · rintro hsplit ⟨part, hpart, hmem⟩
    have hmap : part.toList ∈ (gormParts t c).map String.toList := List.mem_map_of_mem hpart
    rw [← hsplit] at hmap
    exact not_mem_of_mem_splitOn hmap hmem
  · intro hnone
    refine List.splitOn_intercalate ';' (fun part hpart hmem => ?_) (by simp [gormParts_ne_nil])
    obtain ⟨text, htext, rfl⟩ := List.mem_map.1 hpart
    exact hnone ⟨text, htext, hmem⟩

/-! ### Tags -/

/-- The tags of a field between their back quotes. -/
def tagLine (tags : List (String × String)) : String :=
  " ".intercalate (tags.map fun (key, value) => key ++ ":\"" ++ value ++ "\"")

/-- How a field is tagged with what a column says. -/
structure KeepsTags (gorm : Bool) (options : Options) (t : Table) (c : Column) : Prop where
  /-- If there are tags, they stand between back quotes. -/
  delimited : tagText (fieldTags gorm options t c) =
    if fieldTags gorm options t c = [] then "" else " \x60" ++ tagLine (fieldTags gorm options t c) ++ "\x60"
  /-- A back quote or a line feed among them is one of the type with its parameters. -/
  closed : ∀ x ∈ ['\x60', '\n'],
    x ∈ (tagLine (fieldTags gorm options t c)).toList ↔ gorm ∧ x ∈ (typeText c).toList
  /-- So is a quote or a line break in a value. -/
  values : ∀ tag ∈ fieldTags gorm options t c, ∀ x ∈ ['"', '\n', '\r'],
    x ∈ tag.2.toList ↔ tag.1 = "gorm" ∧ x ∈ (typeText c).toList
  /-- Backslashes of the texts are kept. -/
  slashes : ∀ tag ∈ fieldTags gorm options t c, '\\' ∈ tag.2.toList ↔
    '\\' ∈ c.name.toList ∨ tag.1 = "gorm" ∧
      ('\\' ∈ (typeText c).toList ∨ '\\' ∈ chars c.defaultValue ∨ '\\' ∈ chars (t.commentFor c))
  /-- The description of the column falls apart into its parts exactly if the type has no semicolon. -/
  parts : (gormTag t c).toList.splitOn ';' = (gormParts t c).map String.toList ↔
    ';' ∉ (typeText c).toList

/-- The tags of a field. -/
theorem mem_fieldTags {tag : String × String} (h : tag ∈ fieldTags gorm options t c) :
    gorm ∧ tag = ("gorm", gormTag t c) ∨ tag = ("json", tagValue c.name) := by
  unfold fieldTags at h
  rcases List.mem_append.1 h with h | h <;> split at h <;> simp_all

theorem key_of_mem_fieldTags {tag : String × String} (h : tag ∈ fieldTags gorm options t c) :
    tag.1 ∈ ["gorm", "json"] := by
  rcases mem_fieldTags h with ⟨-, rfl⟩ | rfl <;> simp

theorem gorm_of_mem_fieldTags {tag : String × String} (h : tag ∈ fieldTags gorm options t c)
    (hkey : tag.1 = "gorm") : gorm := by
  rcases mem_fieldTags h with ⟨hgorm, -⟩ | rfl
  · exact hgorm
  · simp at hkey

/-- A value of a tag has a character that ends values exactly if the type has it. -/
theorem mem_value_iff {tag : String × String} (htag : tag ∈ fieldTags gorm options t c)
    (hx : x ∈ endingChars) (hsemicolon : x ≠ ';') :
    x ∈ tag.2.toList ↔ tag.1 = "gorm" ∧ x ∈ (typeText c).toList := by
  rcases mem_fieldTags htag with ⟨-, rfl⟩ | rfl
  · simp [mem_gormTag_iff hsemicolon, exists_mem_gormParts_ending hx]
  · simp [not_mem_tagValue hx]

/-- A character that is in no key stands between the back quotes if it is in a value. -/
theorem mem_tagLine_iff (hx : x ∉ [' ', ':', '"']) {tags : List (String × String)}
    (hkeys : ∀ tag ∈ tags, x ∉ tag.1.toList) :
    x ∈ (tagLine tags).toList ↔ ∃ tag ∈ tags, x ∈ tag.2.toList := by
  have hline : (tagLine tags).toList = [' '].intercalate
      ((tags.map fun (key, value) => key ++ ":\"" ++ value ++ "\"").map String.toList) :=
    String.toList_intercalate
  obtain ⟨hspace, hcolon, hquote⟩ : x ≠ ' ' ∧ x ≠ ':' ∧ x ≠ '"' := by simpa using hx
  rw [hline, mem_intercalate_iff hspace]
  simp only [List.map_map, List.mem_map, exists_exists_and_eq_and, Function.comp_apply, String.toList_append,
    List.mem_append]
  refine exists_congr fun tag => and_congr_right fun htag => ?_
  simp [hkeys tag htag, hcolon, hquote]

theorem keepsTags (gorm : Bool) (options : Options) (t : Table) (c : Column) :
    KeepsTags gorm options t c where
  delimited := by
    cases fieldTags gorm options t c <;> rfl
  closed x hx := by
    have hending : (x ∈ endingChars ∧ x ≠ ';') ∧ x ∉ [' ', ':', '"'] ∧
        ∀ key ∈ ["gorm", "json"], x ∉ key.toList := by
      revert x
      decide
    obtain ⟨⟨hends, hsemicolon⟩, hplain, hkeys⟩ := hending
    rw [mem_tagLine_iff hplain fun tag htag => hkeys _ (key_of_mem_fieldTags htag)]
    constructor
    · rintro ⟨tag, htag, hmem⟩
      obtain ⟨hkey, htype⟩ := (mem_value_iff htag hends hsemicolon).1 hmem
      exact ⟨gorm_of_mem_fieldTags htag hkey, htype⟩
    · rintro ⟨hgorm, htype⟩
      have htag : ("gorm", gormTag t c) ∈ fieldTags gorm options t c := by simp [fieldTags, hgorm]
      exact ⟨_, htag, (mem_value_iff htag hends hsemicolon).2 ⟨rfl, htype⟩⟩
  values tag htag x hx := by
    have hending : x ∈ endingChars ∧ x ≠ ';' := by
      revert x
      decide
    exact mem_value_iff htag hending.1 hending.2
  slashes tag htag := by
    rcases mem_fieldTags htag with ⟨-, rfl⟩ | rfl
    · simp [mem_gormTag_iff, exists_slash_mem_gormParts]
    · simp [slash_mem_tagValue_iff]
  parts := splitOn_gormTag_iff

/-! ### Names of tables -/

/-- How the name of a table is returned. -/
structure ReturnsName (t : Table) : Prop where
  /-- The method returns a literal. -/
  returned : tableNameMethod t = "\n// TableName returns the table name of " ++ typeName t ++ ".\nfunc (" ++
    typeName t ++ ") TableName() string \x7b\n\treturn " ++ tableNameLiteral t.name ++ "\n\x7d\n"
  /-- The literal is read as the name exactly if the name has no backslash, no line feed and no character that
  compilers refuse. -/
  read : ∀ rest, readLiteral ((tableNameLiteral t.name).toList ++ rest) = some (encoded t.name.toList, rest) ↔
    ∀ ch ∈ t.name.toList, ch ≠ '\\' ∧ isLiteralChar ch

theorem returnsName (t : Table) : ReturnsName t :=
  ⟨rfl, readLiteral_tableNameLiteral_iff t.name⟩

/-- **Texts in Go stay inside their literals** but for those of a type, which are put into tags as they are,
for backslashes, and for line feeds in the name of a table. -/
theorem texts_in_literals (gorm : Bool) (options : Options) (t : Table) :
    (∀ c, KeepsTags gorm options t c) ∧ ReturnsName t :=
  ⟨keepsTags gorm options t, returnsName t⟩

/-- A table whose name has a backslash, with a column whose type has a back quote and a semicolon. -/
def shares : Table where
  dialect := .mysql
  name := "a\\b"
  columns := [{ name := "x", rawType := "decimal", length := some "\x60p;q\x60" }]

/-- The type ends the tags and a part of them, and the name is read as another one. -/
theorem shares_escape : ∃ c ∈ shares.columns,
    '\x60' ∈ (tagLine (fieldTags true {} shares c)).toList ∧
      (gormTag shares c).toList.splitOn ';' ≠ (gormParts shares c).map String.toList ∧
      readLiteral (tableNameLiteral shares.name).toList = some ([0x61, 0x08], []) :=
  ⟨_, List.mem_singleton.2 rfl, by decide +kernel, by decide +kernel, by decide +kernel⟩

end Schemata.Entity.Go
