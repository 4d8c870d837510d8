import Mathlib.Data.List.Chain
import Schemata.Entity.Java
import Schemata.Entity.TypeScript
import Schemata.Proofs.Entity.OneLine

/-! # Comments in blocks

The comments of a table and its columns stand in blocks that end at the first `*/`.  A mark of two characters
is found where it was put if none stands before it (`breakOn_of_avoids`), and a text is rid of its marks by
replacing them if what is put for one neither has the mark nor makes one with what is next to it
(`avoids_replaceAll`).  `comments_enclosed` says that no comment ends its block, whatever the characters
of the comment are.  Marks are looked for in the text as it is written, where escapes for characters, which
Java replaces before it looks for comments, are escapes still. -/

namespace Schemata.Text

variable {x y : Char} {new cs a r : List Char}

/-! ### Marks of two characters -/

/-- No `x` of a text has a `y` right after it. -/
def Avoids (x y : Char) (cs : List Char) : Prop := cs.IsChain fun c d => ¬(c = x ∧ d = y)

instance : Decidable (Avoids x y cs) := inferInstanceAs (Decidable (cs.IsChain _))

theorem avoids_cons {c : Char} :
    Avoids x y (c :: r) ↔ (∀ d ∈ r.head?, ¬(c = x ∧ d = y)) ∧ Avoids x y r :=
  List.isChain_cons

theorem avoids_append :
    Avoids x y (a ++ r) ↔
      Avoids x y a ∧ Avoids x y r ∧ ∀ c ∈ a.getLast?, ∀ d ∈ r.head?, ¬(c = x ∧ d = y) :=
  List.isChain_append

/-- A mark stands at the front of a text if its second character comes next. -/
theorem isPrefixOf_pair {c : Char} : [x, y].isPrefixOf (c :: r) ↔ x = c ∧ r.head? = some y := by
  rw [List.isPrefixOf_iff_prefix, List.cons_prefix_cons]
  cases r with
  | nil => simp
  | cons d r => simp [List.cons_prefix_cons, eq_comm]

/-- **The first mark** of a text is the one that is put after a text without marks. -/
theorem breakOn_of_avoids (h : Avoids x y (a ++ [x])) (rest : List Char) :
    breakOn [x, y] (a ++ x :: y :: rest) = some (a, x :: y :: rest) := by
  induction a with
  | nil => rw [List.nil_append, breakOn, if_pos (isPrefixOf_pair.2 ⟨rfl, rfl⟩)]
  | cons c a ih =>
      rw [List.cons_append, avoids_cons] at h
      obtain ⟨hc, ha⟩ := h
      have hno : ¬[x, y].isPrefixOf (c :: (a ++ x :: y :: rest)) := by
        rw [isPrefixOf_pair]
        rintro ⟨rfl, hhead⟩
        refine hc y ?_ ⟨rfl, rfl⟩
        rw [List.head?_append] at hhead ⊢
        exact hhead
      rw [List.cons_append, breakOn, if_neg hno, ih ha]
      rfl

/-! ### Replaced marks -/

/-- What is put for a mark has none and makes none with the characters next to it. -/
structure Disarms (x y : Char) (new : List Char) : Prop where
  filled : new ≠ []
  avoids : Avoids x y new
  first : y ∉ new.head?
  last : x ∉ new.getLast?

theorem head?_replaceAll (h : Disarms x y new) (hy : y ∈ (replaceAll [x, y] new cs).head?) :
    y ∈ cs.head? := by
  fun_cases replaceAll [x, y] new cs with
  | case1 => simp [replaceAll] at hy
  | case2 c r hmark =>
      rw [replaceAll, if_pos hmark, List.head?_append_of_ne_nil _ h.filled] at hy
      exact absurd hy h.first
  | case3 c r hmark =>
      rw [replaceAll, if_neg hmark] at hy
      exact hy

/-- **No mark is left** where marks are replaced. -/
theorem avoids_replaceAll (h : Disarms x y new) (cs : List Char) : Avoids x y (replaceAll [x, y] new cs) := by
  fun_induction replaceAll [x, y] new cs with
  | case1 => exact List.isChain_nil
  | case2 c r _ ih =>
      refine avoids_append.2 ⟨h.avoids, ih, ?_⟩
      rintro c hc d - ⟨rfl, -⟩
      exact h.last hc
  | case3 c r hmark ih =>
      refine avoids_cons.2 ⟨?_, ih⟩
      rintro d hd ⟨rfl, rfl⟩
      exact hmark (isPrefixOf_pair.2 ⟨rfl, head?_replaceAll h hd⟩)

/-- A text without marks is left as it is. -/
theorem replaceAll_of_avoids (h : Avoids x y cs) : replaceAll [x, y] new cs = cs := by
  fun_induction replaceAll [x, y] new cs with
  | case1 => rfl
  | case2 c r hmark _ =>
      obtain ⟨rfl, hy⟩ := isPrefixOf_pair.1 hmark
      exact absurd ⟨rfl, rfl⟩ ((avoids_cons.1 h).1 y hy)
  | case3 c r _ ih => rw [ih (avoids_cons.1 h).2]

theorem mem_replaceAll {old : List Char} {c : Char} (h : c ∈ replaceAll old new cs) : c ∈ new ∨ c ∈ cs := by
  fun_induction replaceAll old new cs with
  | case1 => exact .inr h
  | case2 d r _ ih =>
      rcases List.mem_append.1 h with h | h
      · exact .inl h
      · exact (ih h).imp_right fun hr => List.mem_cons_of_mem _ (List.mem_of_mem_drop hr)
  | case3 d r _ ih =>
      rcases List.mem_cons.1 h with rfl | h
      · exact .inr (List.mem_cons_self ..)
      · exact (ih h).imp_right (List.mem_cons_of_mem _)

end Schemata.Text

namespace Schemata.Entity

open Schemata.Text

/-! ### Blocks -/

/-- How a comment is documented: what is written before its text and after it, up to the mark that ends the
block, and what is put for a mark in it. -/
structure DocStyle where
  opening : String
  closing : String
  substitute : String

namespace DocStyle

/-- The text of a comment. -/
def text (s : DocStyle) (comment : String) : String := replaceText "*/" s.substitute (onOneLine comment)

/-- The block before the mark that ends it. -/
def body (s : DocStyle) (comment : String) : String := s.opening ++ s.text comment ++ s.closing

/-- The block of a comment. -/
def block (s : DocStyle) (comment : String) : String := s.body comment ++ "*/\n"

/-- What is written around a text makes no mark with it. -/
structure IsSound (s : DocStyle) : Prop where
  substitute : Disarms '*' '/' s.substitute.toList
  feed : '\n' ∉ s.substitute.toList
  opening : Avoids '*' '/' s.opening.toList
  before : '*' ∉ s.opening.toList.getLast?
  closing : Avoids '*' '/' (s.closing.toList ++ ['*'])
  after : '/' ∉ (s.closing.toList ++ ['*']).head?

/-- How the block of a comment encloses it. -/
structure Encloses (s : DocStyle) (comment : String) : Prop where
  /-- The first mark of the block, whatever follows it, is the one that ends it. -/
  ends : ∀ rest : List Char, breakOn "*/".toList ((s.block comment).toList ++ rest) =
    some ((s.body comment).toList, "*/\n".toList ++ rest)
  /-- The text is on one line. -/
  line : '\n' ∉ (s.text comment).toList
  /-- Only marks are replaced. -/
  kept : Avoids '*' '/' (onOneLine comment).toList → s.text comment = onOneLine comment

variable {s : DocStyle} {comment : String}

theorem toList_text (s : DocStyle) (comment : String) :
    (s.text comment).toList = replaceAll ['*', '/'] s.substitute.toList (onOneLine comment).toList :=
  String.toList_ofList

theorem IsSound.avoids_body (h : IsSound s) (comment : String) :
    Avoids '*' '/' ((s.body comment).toList ++ ['*']) := by
  rw [body, String.toList_append, String.toList_append, List.append_assoc, List.append_assoc]
  have htext : Avoids '*' '/' ((s.text comment).toList ++ (s.closing.toList ++ ['*'])) := by
    rw [avoids_append, toList_text]
    refine ⟨avoids_replaceAll h.substitute _, h.closing, ?_⟩
    rintro c - d hd ⟨-, rfl⟩
    exact h.after hd
  refine avoids_append.2 ⟨h.opening, htext, ?_⟩
  rintro c hc d - ⟨rfl, -⟩
  exact h.before hc

theorem IsSound.encloses (h : IsSound s) (comment : String) : Encloses s comment where
  ends rest := by
    have hmark : "*/\n".toList = ['*', '/', '\n'] := rfl
    rw [block, String.toList_append, List.append_assoc, hmark]
    exact breakOn_of_avoids (h.avoids_body comment) ('\n' :: rest)
  line := by
    rw [toList_text]
    intro hmem
    rcases mem_replaceAll hmem with hnew | hold
    · exact h.feed hnew
    · exact feed_not_mem_onOneLine comment hold
  kept hcomment := by
    rw [← String.toList_inj, toList_text, replaceAll_of_avoids hcomment]

end DocStyle

/-! ### Documentation in Java and TypeScript -/

/-- The comment of a class. -/
def classStyle : DocStyle := ⟨"/**\n * ", "\n ", "*&#47;"⟩

/-- The comment of a field. -/
def fieldStyle : DocStyle := ⟨"    /** ", " ", "*&#47;"⟩

/-- The comment of an interface. -/
def interfaceStyle : DocStyle := ⟨"/** ", " ", "*\\/"⟩

/-- The comment of a property. -/
def propertyStyle : DocStyle := ⟨"  /** ", " ", "*\\/"⟩

/-- The ways to document. -/
def docStyles : List DocStyle := [classStyle, fieldStyle, interfaceStyle, propertyStyle]

theorem isSound_of_mem_docStyles {s : DocStyle} (h : s ∈ docStyles) : s.IsSound := by
  simp only [docStyles, List.mem_cons, List.not_mem_nil, or_false] at h
  rcases h with rfl | rfl | rfl | rfl <;>
    exact ⟨⟨by decide, by decide, by decide, by decide⟩, by decide, by decide, by decide, by decide,
      by decide⟩

/-- Whether a source text has a block in it. -/
def Shows (source block : String) : Prop := block.toList <:+: source.toList

/-- Where the comments of a table are documented, and how a comment stands there. -/
structure Documents (options : Options) (t : Table) (comment : String) : Prop where
  encloses : ∀ s ∈ docStyles, s.Encloses comment
  inClass : ∀ jpa, t.comment = some comment → Shows (Java.text jpa options t) (classStyle.block comment)
  inField : ∀ jpa, ∀ c ∈ t.columns, t.commentFor c = some comment →
    Shows (Java.text jpa options t) (fieldStyle.block comment)
  inInterface : t.comment = some comment → Shows (TypeScript.text options t) (interfaceStyle.block comment)
  inProperty : ∀ c ∈ t.columns, t.commentFor c = some comment →
    Shows (TypeScript.text options t) (propertyStyle.block comment)

variable {options : Options} {t : Table} {c : Column} {comment : String}

/-! ### Places of the blocks -/

theorem Shows.trans {a b s : String} (h : Shows s a) (hab : Shows a b) : Shows s b := List.IsInfix.trans hab h

theorem shows_append (front block back : String) : Shows (front ++ (block ++ back)) block := by
  rw [Shows, String.toList_append, String.toList_append]
  exact List.infix_append' _ _ _

theorem shows_front (block back : String) : Shows (block ++ back) block := by
  rw [Shows, String.toList_append]
  exact List.infix_append [] _ _

theorem shows_back (front block : String) : Shows (front ++ block) block := by
  rw [Shows, String.toList_append]
  exact (List.suffix_append _ _).isInfix

/-- What is written for one column is shown with what is written for all of them. -/
theorem shows_join {f : Column → String} (hc : c ∈ t.columns) :
    Shows (String.join (t.columns.map f)) (f c) := by
  rw [Shows, String.toList_join, List.flatMap_def]
  exact List.infix_of_mem_flatten (List.mem_map_of_mem (List.mem_map_of_mem hc))

theorem classDoc_eq (comment : String) : Java.classDoc comment = classStyle.block comment := by
  have hclosing : "\n */\n" = "\n " ++ "*/\n" := rfl
  rw [Java.classDoc, hclosing, ← String.append_assoc]
  rfl

theorem fieldDoc_eq (comment : String) : Java.fieldDoc comment = fieldStyle.block comment := by
  have hclosing : " */\n" = " " ++ "*/\n" := rfl
  rw [Java.fieldDoc, hclosing, ← String.append_assoc]
  rfl

theorem interfaceDoc_eq (comment : String) : TypeScript.doc comment = interfaceStyle.block comment := by
  have hclosing : " */\n" = " " ++ "*/\n" := rfl
  rw [TypeScript.doc, hclosing, ← String.append_assoc]
  rfl

theorem propertyDoc_eq (comment : String) : "  " ++ TypeScript.doc comment = propertyStyle.block comment := by
  have hopening : propertyStyle.opening = "  " ++ interfaceStyle.opening := rfl
  rw [interfaceDoc_eq, DocStyle.block, DocStyle.block, DocStyle.body, DocStyle.body, hopening]
  simp only [String.append_assoc]
  rfl

theorem shows_classDoc (jpa : Bool) (h : t.comment = some comment) :
    Shows (Java.text jpa options t) (classStyle.block comment) := by
  rw [Java.text, h, Option.map_some, Option.getD_some, classDoc_eq]
  simp only [String.append_assoc]
  exact shows_append _ _ _

theorem shows_fieldTexts (jpa : Bool) (options : Options) (t : Table) :
    Shows (Java.text jpa options t) (String.join (t.columns.map (Java.fieldText jpa options t))) := by
  rw [Java.text, String.append_assoc, String.append_assoc]
  exact shows_append _ _ _

theorem shows_fieldDoc (jpa : Bool) (hc : c ∈ t.columns) (h : t.commentFor c = some comment) :
    Shows (Java.text jpa options t) (fieldStyle.block comment) := by
  have hfield : Shows (Java.fieldText jpa options t c) (fieldStyle.block comment) := by
    rw [Java.fieldText, h, Option.map_some, Option.getD_some, fieldDoc_eq]
    simp only [String.append_assoc]
    exact shows_append _ _ _
  exact (shows_fieldTexts jpa options t).trans ((shows_join hc).trans hfield)

theorem shows_interfaceDoc (h : t.comment = some comment) :
    Shows (TypeScript.text options t) (interfaceStyle.block comment) := by
  rw [TypeScript.text, h, Option.map_some, Option.getD_some, interfaceDoc_eq]
  simp only [String.append_assoc]
  exact shows_front _ _

theorem shows_propertyDoc (hc : c ∈ t.columns) (h : t.commentFor c = some comment) :
    Shows (TypeScript.text options t) (propertyStyle.block comment) := by
  have hproperty : Shows (TypeScript.propertyText options t c) (propertyStyle.block comment) := by
    rw [TypeScript.propertyText, h, Option.map_some, Option.getD_some, propertyDoc_eq]
    simp only [String.append_assoc]
    exact shows_front _ _
  have hproperties :
      Shows (TypeScript.text options t)
        (String.join (t.columns.map (TypeScript.propertyText options t))) := by
    rw [TypeScript.text, String.append_assoc]
    exact shows_append _ _ _
  exact hproperties.trans ((shows_join hc).trans hproperty)

/-- **No comment ends its block**: the blocks of a table and its columns in Java and TypeScript end at the marks
that are written for them, and no comment takes more than one line. -/
theorem comments_enclosed (options : Options) (t : Table) (comment : String) :
    Documents options t comment where
  encloses _ hs := (isSound_of_mem_docStyles hs).encloses comment
  inClass jpa := shows_classDoc jpa
  inField jpa _ := shows_fieldDoc jpa
  inInterface := shows_interfaceDoc
  inProperty _ := shows_propertyDoc

example : classStyle.block "**/\n/*" = "/**\n * **&#47; /*\n */\n" := by decide +kernel

end Schemata.Entity
