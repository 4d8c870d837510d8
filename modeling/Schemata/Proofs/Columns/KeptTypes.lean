import Schemata.Proofs.Columns.ArrayTypes
import Schemata.Proofs.Columns.DefaultEnds

/-! # Types that are kept

A type that a dialect does not know is kept as it is written, and a notice says so.  Of a type whose name
has parts with dots between them only the first part is kept, in lower case, and the others are read as
attributes (`keepsFirst_of_reportsKept`): the name is kept as a whole exactly if it has one part, and two
such types are told apart exactly if their first parts are. -/

namespace Schemata.SqlType

open Schemata.Text

/-! ### Words as types -/

theorem blankSeparated_word {w : List Char} (hne : w ≠ []) (hw : ∀ c ∈ w, isBlank c = false) :
    blankSeparated w = [w] := by
  fun_induction blankSeparated w with
  | case1 => exact absurd rfl hne
  | case2 c hc => simp [hw c (by simp)] at hc
  | case3 => rfl
  | case4 c d r hc => simp [hw c (by simp)] at hc
  | case5 c d r _ hd => simp [hw d (by simp)] at hd
  | case6 c d r _ _ hnil ih => simp [ih (by simp) fun e he => hw e (by simp [he])] at hnil
  | case7 c d r _ _ word rest hcons ih =>
      rw [ih (by simp) fun e he => hw e (by simp [he])] at hcons
      obtain ⟨rfl, rfl⟩ := List.cons.inj hcons
      rfl

/-- A word is canonical in lower case, or it is one of the synonyms. -/
theorem canonical_word {w : String} (hne : w ≠ "") (hw : ∀ c ∈ w.toList, isBlank c = false) :
    canonical w = (synonyms.lookup (asciiLower w)).getD (asciiLower w) := by
  rw [canonical, blankSeparated_word (by simpa using hne) hw]
  simp

/-- A name without brackets at its end and without blanks is its own element type. -/
theorem splitArray_word {name : String} (h : ∀ c ∈ name.toList, c ≠ ']' ∧ isBlank c = false) :
    splitArray name = (name, 0) := by
  have hstrip : ∀ cs : List Char, (∀ c ∈ cs, c ≠ ']' ∧ isBlank c = false) → stripArrayMarks cs = (cs, 0) := by
    intro cs hcs
    fun_cases stripArrayMarks cs with
    | case1 => rfl
    | case2 => exact absurd rfl (hcs ']' (by simp)).1
    | case3 c r _ hc => simp [(hcs c (by simp)).2] at hc
    | case4 => rfl
  rw [splitArray, hstrip _ (by simpa using h)]
  dsimp only
  rw [List.reverse_reverse, String.ofList_toList]

end Schemata.SqlType

namespace Schemata.Sql

open Schemata.Text Schemata.SqlType

variable {d : Dialect} {rules : Rules} {source : List Char} {t : Token} {ts rest run : List Token}
  {c : Column} {first : String} {further : List String}

/-! ### Words of the source -/

theorem isNameChar_toLower {c : Char} (h : isNameChar c) : isNameChar c.toLower := by
  cases hupper : c.isUpper with
  | false => rwa [toLower_of_not_isUpper hupper]
  | true =>
      have hlower : c.toLower.isLower := by
        obtain ⟨hlow, hhigh⟩ := isUpper_iff_toNat.1 hupper
        rw [isLower_iff_toNat, toNat_toLower hupper]
        omega
      have hstarts : startsBareWord c.toLower := by
        simp [startsBareWord, isAlpha_iff.2 (.inr hlower)]
      exact isNameChar_of_isBareWordChar (isBareWordChar_of_startsBareWord hstarts)

/-- A bare word of a source has the characters of words. -/
theorem isNameChar_of_word {w : String} (h : IsRun d source ts) (ht : t ∈ ts) (hw : t.word? = some w) :
    w ≠ "" ∧ ∀ c ∈ w.toList, isNameChar c := by
  obtain ⟨tokens, htokens, hrun⟩ := h
  obtain ⟨text, after, -, hlexes⟩ := exists_lexeme htokens (hrun.subset ht)
  rw [kind_of_word? hw] at hlexes
  obtain rfl : text = w.toList := hlexes.spelled rfl
  refine ⟨by simpa using hlexes.head.1, ?_⟩
  generalize htext : w.toList = text at hlexes
  cases hlexes.readsAs with
  | punctuation hkind =>
      have hmem := mem_of_lookup hkind
      simp [punctuation] at hmem
  | quoted hkind => simp at hkind
  | @plain c r _ _ hread =>
      unfold scanPlain at hread
      split_ifs at hread
      · simp [plainToken] at hread
      · simp at hread
      · obtain ⟨-, hscan, -⟩ : _ ∧ _ ∧ _ := by simpa [plainToken] using hread
        rw [← hscan]
        exact fun e he => List.all_eq_true.1 List.all_takeWhile e he
      · simp at hread

theorem plain_of_isNameChar {c : Char} (h : isNameChar c) : c ≠ ']' ∧ isBlank c = false :=
  ⟨ne_of_test h (by decide), isBlank_of_isNameChar h⟩

/-- A word in lower case has the characters of words. -/
theorem isNameChar_asciiLower {w : String} (hw : ∀ c ∈ w.toList, isNameChar c) :
    ∀ c ∈ (asciiLower w).toList, isNameChar c := by
  intro c hc
  rw [asciiLower, String.toList_ofList] at hc
  obtain ⟨e, he, rfl⟩ := List.mem_map.1 hc
  exact isNameChar_toLower (hw e he)

/-- The element type of a word is the word in lower case if no dialect has a name for it. -/
theorem canonical_of_unknown {w : String} {n : Nat} (hne : w ≠ "") (hw : ∀ c ∈ w.toList, isNameChar c)
    (h : isKnown d (typeName [w] n) = false) : canonical w = asciiLower w := by
  have table : ∀ e ∈ synonyms, ' ' ∈ e.1.toList ∨
      splitArray e.2 = (e.2, 0) ∧ ((typesOf d).lookup e.2).isSome := by
    cases d <;> decide +kernel
  have hcanonical := canonical_word hne fun c hc => isBlank_of_isNameChar (hw c hc)
  cases hl : synonyms.lookup (asciiLower w) with
  | none => rw [hcanonical, hl, Option.getD_none]
  | some short =>
      rcases table (asciiLower w, short) (mem_of_lookup hl) with hblank | ⟨hself, hknown⟩
      · exact absurd (isNameChar_asciiLower hw _ hblank) (by decide)
      · have helement : element (typeName [w] n) = short := by
          rw [typeName, String.intercalate_singleton, hcanonical, hl, Option.getD_some, element,
            splitArray_marked, element, hself]
        rw [isKnown, helement, hknown] at h
        simp at h

/-! ### Names with parts -/

/-- Nothing follows, or a token that is no further word of a type, and none stands after a group. -/
def EndsName (rules : Rules) (ts : List Token) : Prop :=
  ∀ us ∈ [ts, skipGroup ts], ∀ t ∈ us.head?, ∀ w ∈ t.word?, rules.endsType w ∨ sameWord w "array"

/-- A definition whose type is a name with these parts, with dots between them, before the tokens `rest`. -/
structure NamesType (d : Dialect) (source : List Char) (first : String) (further : List String)
    (rest run : List Token) : Prop where
  isRun : IsRun d source run
  splits : ∃ t type, run = t :: (type ++ rest) ∧
    type.map Token.kind = [.dot].intercalate ((first :: further).map ([.word ·]))
  ends : EndsName (rulesOf d) rest

/-- A column that is declared with such a type, and a notice that the type is kept. -/
def ReportsKept (d : Dialect) (source : List Char) (first : String) (further : List String)
    (rest : List Token) (c : Column) : Prop :=
  ∃ run primary unique notices, NamesType d source first further rest run ∧
    columnDefinition? (rulesOf d) source run = some (.column c primary unique notices) ∧
    .keptType c.name (upper c.rawType) ∈ notices

/-- What is kept of a type with these parts. -/
structure KeepsFirst (d : Dialect) (source : List Char) (first : String) (further : List String)
    (rest : List Token) (c : Column) : Prop where
  /-- The type is the first part in lower case, with marks of dimensions. -/
  rawType : ∃ n, c.rawType = asciiLower first ++ String.join (List.replicate n "[]")
  element : SqlType.element c.rawType = asciiLower first
  /-- This is the whole name exactly if there is no other part. -/
  whole : SqlType.element c.rawType = asciiLower (".".intercalate (first :: further)) ↔ further = []
  /-- Other parts are read as attributes. -/
  lost : further ≠ [] → ∃ run typed tail, Declares (rulesOf d) source run (tail ++ rest) typed c ∧
    tail.map Token.kind = (further.map ([.word ·])).flatMap (.dot :: ·)
  /-- Another type that is kept is the same exactly if its first part is. -/
  others : ∀ {d' source' first' further' rest' c'}, ReportsKept d' source' first' further' rest' c' →
    (SqlType.element c'.rawType = SqlType.element c.rawType ↔ sameWord first' first)

/-! ### How they are read -/

/-- A name of one part is read as one word. -/
theorem typeStem_word {u : Token} (hu : u.kind = .word first) (hstart : startsConstraint first = false)
    (hend : EndsName rules rest) (name : String) :
    ∃ typed tail, typeStem rules source name (u :: rest) = some (typed, [first], tail) := by
  have hword : u.word? = some first := by simp [Token.word?, hu]
  rw [typeStem, hword]
  simp only [hstart, Bool.false_eq_true, if_false]
  rw [typeWords_eq_nil (hend rest (by simp))]
  dsimp only
  cases hgroup : parenGroup? rest with
  | none => exact ⟨_, _, rfl⟩
  | some group =>
      have hskip : skipGroup rest = group.2 := by rw [skipGroup, hgroup]
      have hafter := typeWords_eq_nil (hend group.2 (by simp [hskip]))
      dsimp only
      rw [hafter]
      exact ⟨_, _, rfl⟩

/-- The words of a type end before a dot. -/
theorem typeStem_dotted {u v : Token} (hu : u.kind = .word first) (hv : v.kind = .dot)
    (hstart : startsConstraint first = false) (name : String) (r : List Token) :
    typeStem rules source name (u :: v :: r) = some ({ name, rawType := "" }, [first], v :: r) := by
  have hword : u.word? = some first := by simp [Token.word?, hu]
  have hnone : v.word? = none := by simp [Token.word?, hv]
  have hwords : typeWords rules (v :: r) = ([], v :: r) := typeWords_eq_nil (by simp [hnone])
  rw [typeStem, hword]
  simp only [hstart, Bool.false_eq_true, if_false, hwords]
  rw [parenGroup?_of_ne (by simp [hv])]

/-- Of a name with parts the first one is read, and further parts are left. -/
theorem typeStem_parts {u : Token} {others : List Token} (hu : u.kind = .word first)
    (hothers : others.map Token.kind = (further.map ([.word ·])).flatMap (.dot :: ·))
    (hstart : startsConstraint first = false) (hend : EndsName rules rest) (name : String) :
    ∃ typed tail, typeStem rules source name (u :: (others ++ rest)) = some (typed, [first], tail) ∧
      (further ≠ [] → tail = others ++ rest ∧ EndsMarks tail) := by
  cases further with
  | nil =>
      obtain rfl : others = [] := by simpa using hothers
      obtain ⟨typed, tail, hone⟩ := typeStem_word hu hstart hend name
      exact ⟨typed, tail, hone, fun hne => absurd rfl hne⟩
  | cons second further =>
      obtain ⟨v, others, rfl, hv, -⟩ := List.map_eq_cons_iff.1 hothers
      refine ⟨_, _, typeStem_dotted hu hv hstart name (others ++ rest), fun _ => ⟨rfl, ?_⟩⟩
      simp [EndsMarks, hv, Token.isKeyword, Token.keyword?, Token.word?]

/-- A type does not start with a word that starts a constraint. -/
theorem startsConstraint_of_typeStem {u : Token} {r : List Token} {name : String}
    {stem : Column × List String × List Token} (hu : u.kind = .word first)
    (h : typeStem rules source name (u :: r) = some stem) : startsConstraint first = false := by
  have hword : u.word? = some first := by simp [Token.word?, hu]
  rw [typeStem, hword] at h
  dsimp only at h
  split at h
  · simp at h
  · rename_i hstart
    simpa using hstart

/-- How the type of a name with parts is read. -/
structure ReadsFirst (d : Dialect) (source : List Char) (first : String) (further : List String)
    (rest : List Token) (c : Column) : Prop where
  word : first ≠ "" ∧ ∀ ch ∈ first.toList, isNameChar ch
  rawType : ∃ n, c.rawType = typeName [first] n
  lost : further ≠ [] → ∃ run typed tail, Declares (rulesOf d) source run (tail ++ rest) typed c ∧
    tail.map Token.kind = (further.map ([.word ·])).flatMap (.dot :: ·)

theorem NamesType.readsFirst {primary unique : Bool} {notices : List Notice}
    (h : NamesType d source first further rest run)
    (hcolumn : columnDefinition? (rulesOf d) source run = some (.column c primary unique notices)) :
    ReadsFirst d source first further rest c := by
  obtain ⟨tail, typed, hdeclares, -⟩ := notices_columnDefinition? hcolumn
  obtain ⟨t, type, rfl, hkinds⟩ := h.splits
  rw [List.map_cons, Ddl.intercalate_singleton_cons, List.singleton_append] at hkinds
  obtain ⟨u, others, rfl, hu, hothers⟩ := List.map_eq_cons_iff.1 hkinds
  have hword : u.word? = some first := by simp [Token.word?, hu]
  have hraw : c.rawType = typed.rawType := by
    rw [hdeclares.settled, settle_keeps (f := Column.rawType) fun _ => rfl, (foldl_add_column _ _).2]
  obtain ⟨_, _, name, he, -, -, hread⟩ := hdeclares.reads
  obtain ⟨rfl, rfl⟩ := List.cons.inj he
  rw [columnOfType?_stem] at hread
  obtain ⟨stem, hstem, hmarks⟩ := Option.map_eq_some_iff.1 hread
  obtain ⟨column, r, hparts, hleft⟩ :=
    typeStem_parts hu hothers (startsConstraint_of_typeStem hu hstem) h.ends name
  obtain rfl := Option.some.inj (hstem.symm.trans hparts)
  obtain ⟨rfl, rfl⟩ := Prod.mk.inj hmarks
  refine ⟨isNameChar_of_word h.isRun (by simp) hword, ⟨_, hraw⟩, fun hne => ?_⟩
  obtain ⟨rfl, hnone⟩ := hleft hne
  rw [hnone.arrayMarks_eq] at hdeclares
  exact ⟨_, _, others, hdeclares, hothers⟩

/-- A notice that a type is kept is only on a type that is not known. -/
theorem not_isKnown_of_mem {primary unique : Bool} {notices : List Notice}
    (h : columnDefinition? (rulesOf d) source run = some (.column c primary unique notices))
    (hkept : .keptType c.name (upper c.rawType) ∈ notices) : isKnown d c.rawType = false := by
  have hdialect : (rulesOf d).dialect = d := by cases d <;> rfl
  obtain ⟨tail, typed, -, rfl⟩ := notices_columnDefinition? h
  rcases List.mem_append.1 hkept with hmem | hmem
  · obtain ⟨a, -, ha⟩ := List.mem_filterMap.1 hmem
    cases a <;> simp [Attribute.notice?] at ha
  · rw [Declaration.typeNotices, hdialect] at hmem
    split at hmem
    · simp at hmem
    · rename_i hknown
      simpa using hknown

/-- The first part of a type that is kept, and what is kept of it. -/
theorem ReportsKept.reads (h : ReportsKept d source first further rest c) :
    ReadsFirst d source first further rest c ∧
      (∃ n, c.rawType = asciiLower first ++ String.join (List.replicate n "[]")) ∧
      SqlType.element c.rawType = asciiLower first := by
  obtain ⟨run, primary, unique, notices, hnames, hcolumn, hkept⟩ := h
  have hread := hnames.readsFirst hcolumn
  obtain ⟨n, hraw⟩ := hread.rawType
  have hunknown := not_isKnown_of_mem hcolumn hkept
  rw [hraw] at hunknown
  have hcanonical := canonical_of_unknown hread.word.1 hread.word.2 hunknown
  have hself : splitArray (asciiLower first) = (asciiLower first, 0) :=
    splitArray_word fun ch hch => plain_of_isNameChar (isNameChar_asciiLower hread.word.2 ch hch)
  rw [typeName, String.intercalate_singleton, hcanonical] at hraw
  refine ⟨hread, ⟨n, hraw⟩, ?_⟩
  rw [hraw, element, splitArray_marked, element, hself]

/-- **Of a type that is kept the first part is kept**: all of its name if it has one part, and otherwise
not, so that types with other parts and the same first part become the same type. -/
theorem keepsFirst_of_reportsKept (h : ReportsKept d source first further rest c) :
    KeepsFirst d source first further rest c := by
  obtain ⟨hread, hraw, helement⟩ := h.reads
  refine ⟨hraw, helement, ?_, hread.lost, fun h' => ?_⟩
  · rw [helement]
    constructor
    · intro he
      cases further with
      | nil => rfl
      | cons second further =>
          -- a word has no dot
          have hdot : '.' ∈ (asciiLower (".".intercalate (first :: second :: further))).toList := by
            rw [asciiLower, String.toList_ofList]
            exact List.mem_map.2 ⟨'.', by simp, by decide⟩
          rw [← he] at hdot
          exact absurd (isNameChar_asciiLower hread.word.2 _ hdot) (by decide)
    · rintro rfl
      rw [String.intercalate_singleton]
  · rw [h'.reads.2.2, helement]
    exact beq_iff_eq.symm

/-- A script with types that are not known, two of which have parts. -/
def cardScript : List Char :=
  "CREATE TABLE cards (suit Suit[], mood public.mood, color public.color NOT NULL)".toList

/-- The column of a type without parts. -/
def suit : Column := { name := "suit", rawType := "suit[]" }

/-- The columns of types with parts. -/
def mood : Column := { name := "mood", rawType := "public" }

def color : Column := { name := "color", rawType := "public", notNull := true }

/-- A slice of the tokens that declares a column of a type that is kept. -/
theorem reportsKept_of_slice (t : Token) (type : List Token) (i n : Nat)
    (hslice : (tokenize (rulesOf d) source).toOption.map (fun tokens => (tokens.drop i).take n) =
      some (t :: (type ++ rest)))
    (hkinds : type.map Token.kind = [.dot].intercalate ((first :: further).map ([.word ·])))
    (hends : EndsName (rulesOf d) rest)
    (hcolumn : columnDefinition? (rulesOf d) source (t :: (type ++ rest)) =
      some (.column c false false [.keptType c.name (upper c.rawType)])) :
    ReportsKept d source first further rest c :=
  ⟨_, false, false, _, ⟨isRun_of_slice hslice, ⟨t, type, rfl, hkinds⟩, hends⟩, hcolumn, by simp⟩

theorem reportsKept_suit : ReportsKept .postgresql cardScript "Suit" []
    [⟨.lbracket, ⟨29, 30⟩⟩, ⟨.rbracket, ⟨30, 31⟩⟩] suit :=
  reportsKept_of_slice ⟨.word "suit", ⟨20, 24⟩⟩ [⟨.word "Suit", ⟨25, 29⟩⟩] 4 4
    (by decide +kernel) (by decide) (by unfold EndsName; decide) (by decide +kernel)

theorem keepsFirst_suit :
    ReportsKept .postgresql cardScript "Suit" [] [⟨.lbracket, ⟨29, 30⟩⟩, ⟨.rbracket, ⟨30, 31⟩⟩] suit ∧
      KeepsFirst .postgresql cardScript "Suit" [] [⟨.lbracket, ⟨29, 30⟩⟩, ⟨.rbracket, ⟨30, 31⟩⟩] suit :=
  ⟨reportsKept_suit, keepsFirst_of_reportsKept reportsKept_suit⟩

/-- Two types with parts that are kept as one type, with notices that say so of both. -/
theorem mood_like_color :
    ReportsKept .postgresql cardScript "public" ["mood"] [] mood ∧
      ReportsKept .postgresql cardScript "public" ["color"]
        [⟨.word "NOT", ⟨70, 73⟩⟩, ⟨.word "NULL", ⟨74, 78⟩⟩] color ∧
      mood.rawType = color.rawType ∧ element mood.rawType ≠ asciiLower "public.mood" :=
  ⟨reportsKept_of_slice ⟨.word "mood", ⟨33, 37⟩⟩
      [⟨.word "public", ⟨38, 44⟩⟩, ⟨.dot, ⟨44, 45⟩⟩, ⟨.word "mood", ⟨45, 49⟩⟩] 9 4
      (by decide +kernel) (by decide) (by unfold EndsName; decide) (by decide +kernel),
    reportsKept_of_slice ⟨.word "color", ⟨51, 56⟩⟩
      [⟨.word "public", ⟨57, 63⟩⟩, ⟨.dot, ⟨63, 64⟩⟩, ⟨.word "color", ⟨64, 69⟩⟩] 14 6
      (by decide +kernel) (by decide) (by unfold EndsName; decide) (by decide +kernel),
    rfl, by decide +kernel⟩

end Schemata.Sql
