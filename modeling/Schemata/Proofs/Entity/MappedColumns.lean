import Schemata.Entity.MappedClass
import Schemata.Proofs.Entity.OneLine

/-! # Mapped columns

A mapped column is described by arguments of six kinds (`isArgument_of_mem`).  One of them is its type: one of
the constructors of the mapper, by itself or applied to sizes or to the mark of a time zone
(`isCall_constructorOf`), inside arrays.  The text of a type is made of letters, digits, brackets and what
separates arguments (`isTypeChar_columnType`). -/

namespace Schemata.Entity.MappedClass

variable {a b digits : String} {type : String × Option String} {t : Table} {c : Column}

/-! ### Constructors and arguments -/

/-- The type constructors, arrays apart. -/
def constructorNames : List String :=
  ["Boolean", "SmallInteger", "Integer", "BigInteger", "Numeric", "Float", "Double", "String", "Text", "Uuid",
    "Date", "Time", "DateTime", "JSON", "LargeBinary"]

/-- What a type constructor is applied to. -/
inductive IsArguments : String → Prop
  | size {digits : String} (h : isDigitText digits) : IsArguments digits
  | scaled {precision scale : String} (hprecision : isDigitText precision) (hscale : isDigitText scale) :
      IsArguments (precision ++ ", " ++ scale)
  | zoned : IsArguments "timezone=True"

/-- A type constructor with its arguments, if it has any. -/
structure IsCall (type : String × Option String) : Prop where
  mem : type.1 ∈ constructorNames
  arguments : ∀ a ∈ type.2, IsArguments a

theorem isCall_constant (h : a ∈ constructorNames) : IsCall (a, none) := ⟨h, by simp⟩

theorem isDigitText_of_filter {o : Option String} (h : o.filter isDigitText = some digits) :
    isDigitText digits :=
  (Option.filter_eq_some_iff.1 h).2

theorem isCall_decimal (c : Column) : IsCall ("Numeric", decimalArguments c) := by
  refine ⟨(by decide : "Numeric" ∈ constructorNames), ?_⟩
  unfold decimalArguments
  split
  · rename_i hlength hprecision
    rintro _ ⟨⟩
    exact .scaled (isDigitText_of_filter hlength) (isDigitText_of_filter hprecision)
  · rename_i hlength _
    rintro _ ⟨⟩
    exact .size (isDigitText_of_filter hlength)
  · simp

theorem isCall_stringType (c : Column) : IsCall (stringType c) := by
  unfold stringType
  split
  · rename_i hlength
    refine ⟨(by decide : "String" ∈ constructorNames), ?_⟩
    rintro _ ⟨⟩
    exact .size (isDigitText_of_filter hlength)
  · refine isCall_constant ?_
    split <;> decide

theorem isCall_dateTime (c : Column) :
    IsCall ("DateTime", if c.rawType = "timestamptz" then some "timezone=True" else none) := by
  refine ⟨(by decide : "DateTime" ∈ constructorNames), ?_⟩
  split
  · rintro _ ⟨⟩
    exact .zoned
  · simp

/-- **The constructor of a column** and what it is applied to. -/
theorem isCall_constructorOf (c : Column) : IsCall (constructorOf c) := by
  unfold constructorOf
  rcases SqlType.Family.ofColumn c with _ | family
  · exact isCall_constant (by decide)
  cases family with
  | decimal => exact isCall_decimal c
  | string => exact isCall_stringType c
  | dateTime => exact isCall_dateTime c
  | _ => exact isCall_constant (by decide)

/-- The text of a type constructor and its arguments. -/
def callText (type : String × Option String) : String :=
  type.1 ++ (type.2.map fun arguments => "(" ++ arguments ++ ")").getD ""

theorem text_columnType (c : Column) : (columnType c).text =
    ColumnType.arrayText (SqlType.dimensions c.rawType) (callText (constructorOf c)) := rfl

theorem names_columnType (c : Column) : (columnType c).names =
    (constructorOf c).1 :: if SqlType.dimensions c.rawType = 0 then [] else ["ARRAY"] := rfl

/-! ### Characters -/

/-- A character of a type. -/
def isTypeChar (c : Char) : Bool :=
  c.isAlphanum || c == '(' || c == ')' || c == ',' || c == ' ' || c == '='

theorem isTypeChar_append : (∀ c ∈ (a ++ b).toList, isTypeChar c) ↔
    (∀ c ∈ a.toList, isTypeChar c) ∧ ∀ c ∈ b.toList, isTypeChar c := by
  rw [String.toList_append, List.forall_mem_append]

theorem isTypeChar_of_isDigitText (h : isDigitText digits) : ∀ c ∈ digits.toList, isTypeChar c := fun c hc => by
  simp [isTypeChar, Char.isAlphanum, isDigit_of_isDigitText h c hc]

theorem IsArguments.isTypeChar (h : IsArguments a) : ∀ c ∈ a.toList, isTypeChar c := by
  cases h with
  | size h => exact isTypeChar_of_isDigitText h
  | scaled hprecision hscale =>
      simp only [isTypeChar_append]
      exact ⟨⟨isTypeChar_of_isDigitText hprecision, by decide⟩, isTypeChar_of_isDigitText hscale⟩
  | zoned => decide

theorem isTypeChar_arrayText (h : ∀ c ∈ a.toList, isTypeChar c) (n : Nat) :
    ∀ c ∈ (ColumnType.arrayText n a).toList, isTypeChar c := by
  induction n with
  | zero => exact h
  | succ n ih =>
      simp only [ColumnType.arrayText, isTypeChar_append]
      exact ⟨⟨by decide, ih⟩, by decide⟩

theorem IsCall.isTypeChar_callText (h : IsCall type) : ∀ x ∈ (callText type).toList, isTypeChar x := by
  have hnames : ∀ name ∈ constructorNames, ∀ x ∈ name.toList, isTypeChar x := by decide
  have happlied :
      ∀ x ∈ ((type.2.map fun arguments => "(" ++ arguments ++ ")").getD "").toList, isTypeChar x := by
    cases harguments : type.2 with
    | none => simp
    | some arguments =>
        simp only [Option.map_some, Option.getD_some, isTypeChar_append]
        exact ⟨⟨by decide, (h.arguments _ harguments).isTypeChar⟩, by decide⟩
  exact isTypeChar_append.2 ⟨hnames _ h.mem, happlied⟩

theorem isTypeChar_columnType (c : Column) : ∀ x ∈ (columnType c).text.toList, isTypeChar x :=
  isTypeChar_arrayText (isCall_constructorOf c).isTypeChar_callText _

/-! ### Arguments of columns -/

/-- The arguments that say that something holds of a column. -/
def flagArguments : List String := ["primary_key=True", "autoincrement=True", "unique=True"]

/-- What an argument for a column can be. -/
inductive IsArgument (t : Table) (c : Column) : String → Prop
  | name : IsArgument t c (Json.stringLiteral c.name)
  | type : IsArgument t c (columnType c).text
  | flag {argument : String} (h : argument ∈ flagArguments) : IsArgument t c argument
  | value {text : String} (h : serverDefault t c = some (.value text)) :
      IsArgument t c ("server_default=" ++ Json.stringLiteral text)
  | expression {text : String} (h : serverDefault t c = some (.expression text)) :
      IsArgument t c ("server_default=text(" ++ Json.stringLiteral text ++ ")")
  | comment (comment : String) : IsArgument t c ("comment=" ++ Json.stringLiteral comment)

/-- **The arguments for a column**, each of its kind. -/
theorem isArgument_of_mem : ∀ a ∈ columnArguments t c, IsArgument t c a := by
  have hflag (flag : Bool) {argument : String} (h : argument ∈ flagArguments) :
      ∀ a ∈ if flag then [argument] else [], IsArgument t c a := by
    cases flag <;> simp [IsArgument.flag h]
  simp only [columnArguments, List.forall_mem_append]
  refine ⟨⟨⟨⟨⟨⟨?_, ?_⟩, hflag _ (by decide)⟩, hflag _ (by decide)⟩, hflag _ (by decide)⟩, ?_⟩, ?_⟩
  · split <;> simp [IsArgument.name]
  · simp [IsArgument.type]
  · cases h : serverDefault t c with
    | none => simp
    | some d =>
        rw [Option.map_some, Option.toList_some, List.forall_mem_singleton]
        cases d with
        | value text => exact .value h
        | expression text => exact .expression h
  · cases t.commentFor c with
    | none => simp
    | some comment => simpa using IsArgument.comment comment

end Schemata.Entity.MappedClass
