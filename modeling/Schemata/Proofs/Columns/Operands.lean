import Schemata.Proofs.Ddl.Clauses
import Schemata.Proofs.Sql.TypeEnds

/-! # Where defaults end

The value of a default is a string, a number that may have a sign, or a word that may have a group in
parentheses after it (`IsOperand`).  It ends where no group, no further name and no string follows
(`defaultAttribute_append`).  Casts after it are passed over up to a word that ends a type
(`skipCasts_chain`). -/

namespace Schemata.Sql

open Schemata.Text

variable {rules : Rules} {source : List Char} {t u : Token} {r ts value more group names marks : List Token}
  {ks : List TokenKind}

/-! ### Shapes -/

/-- Nothing, or a group in balanced parentheses. -/
inductive IsGroup : List TokenKind → Prop
  | none : IsGroup []
  | parens {inner : List TokenKind} (h : IsBalanced inner) : IsGroup (.lparen :: (inner ++ [.rparen]))

/-- A string; double quotes enclose strings as well. -/
inductive IsString : TokenKind → Prop
  | literal (value : String) : IsString (.stringLit value)
  | quoted (value : String) : IsString (.quotedIdent value '"')

/-- The value of a default: a string, a number that may have a sign, or a word that may have a group
after it. -/
inductive IsOperand : List TokenKind → Prop
  | string {k : TokenKind} (h : IsString k) : IsOperand [k]
  | number {sign : List TokenKind} (h : sign ∈ [[], [.symbol '+'], [.symbol '-']]) (text : String) :
      IsOperand (sign ++ [.number text])
  | word (text : String) {group : List TokenKind} (h : IsGroup group) : IsOperand (.word text :: group)

/-- A cast: the type is one word or more, the first of which starts no constraint while the others end
no type, and then perhaps a group and pairs of brackets. -/
inductive IsCast (rules : Rules) : List TokenKind → Prop
  | mk {first : String} {others : List String} {group : List TokenKind} (n : Nat)
      (hfirst : startsConstraint first = false) (hothers : ∀ w ∈ others, rules.endsType w = false)
      (hgroup : IsGroup group) :
      IsCast rules (.doubleColon :: .word first :: (others.map .word ++
        (group ++ (List.replicate n [.lbracket, .rbracket]).flatten)))

/-- Casts one after the other. -/
def IsCasts (rules : Rules) (ks : List TokenKind) : Prop :=
  ∃ kss : List (List TokenKind), ks = kss.flatten ∧ ∀ cast ∈ kss, IsCast rules cast

/-- Nothing follows that goes on the value of a default. -/
def EndsOperand (ts : List Token) : Prop :=
  ∀ t ∈ ts.head?, t.kind ≠ .lparen ∧ t.kind ≠ .dot ∧ ∀ value, t.kind ≠ .stringLit value

theorem endsOperand_nil : EndsOperand [] := by
  simp [EndsOperand]

theorem StartsWithEnd.endsOperand (h : StartsWithEnd rules ts) : EndsOperand ts := by
  intro t ht
  obtain ⟨w, hw, -⟩ := h t ht
  simp [kind_of_word? hw]

theorem attributes_nil (rules : Rules) (source : List Char) : attributes rules source [] = [] := by
  rw [attributes]

/-! ### Groups -/

/-- A group is nothing or starts with a parenthesis. -/
theorem IsGroup.cases (h : IsGroup (group.map Token.kind)) :
    group = [] ∨ ∃ opening r, group = opening :: r ∧ opening.kind = .lparen := by
  generalize hk : group.map Token.kind = ks at h
  cases h with
  | none => exact .inl (by simpa using hk)
  | parens =>
      obtain ⟨opening, r, rfl, hopening, -⟩ := List.map_eq_cons_iff.1 hk
      exact .inr ⟨opening, r, rfl, hopening⟩

/-- A group is skipped up to its end. -/
theorem skipGroup_append (h : IsGroup (group.map Token.kind)) (hmore : parenGroup? more = none) :
    skipGroup (group ++ more) = more := by
  generalize hk : group.map Token.kind = ks at h
  cases h with
  | none =>
      obtain rfl : group = [] := by simpa using hk
      rw [List.nil_append, skipGroup, hmore]
  | parens h =>
      obtain ⟨opening, inner, closing, rfl, hopening, rfl, hclosing⟩ := exists_group_of_kinds hk
      rw [List.cons_append, List.append_assoc, List.cons_append, List.nil_append,
        skipGroup_group hopening hclosing h]

theorem EndsOperand.parenGroup?_eq (h : EndsOperand ts) : parenGroup? ts = none := by
  cases ts with
  | nil => rfl
  | cons t r => exact parenGroup?_of_ne (h t rfl).1

/-! ### Operands -/

/-- No string and no name goes on a group, or on nothing. -/
theorem introducesLiteral_group (h : IsGroup (group.map Token.kind)) (hmore : EndsOperand more)
    (t : Token) : introducesLiteral t (group ++ more) = false ∧
      furtherNames (group ++ more) = ([], group ++ more) := by
  suffices hhead : ∀ u ∈ (group ++ more).head?, u.kind ≠ .dot ∧ ∀ value, u.kind ≠ .stringLit value by
    cases hall : group ++ more with
    | nil => exact ⟨rfl, rfl⟩
    | cons u us =>
        obtain ⟨hdot, hstring⟩ := hhead u (by rw [hall]; rfl)
        refine ⟨?_, furtherNames_of_ne_dot hdot⟩
        unfold introducesLiteral
        dsimp only
        split
        · exact absurd ‹_› (hstring _)
        · rfl
  intro u hu
  rcases h.cases with rfl | ⟨opening, r, rfl, hopening⟩
  · exact (hmore u hu).2
  · obtain rfl : opening = u := by simpa using hu
    simp [hopening]

/-- How a value is read before other tokens: its sign is skipped, and its operand ends where it does. -/
structure ReadsOperand (value more : List Token) (t : Token) (r : List Token) : Prop where
  sign : skipSign (value ++ more) = t :: (r ++ more)
  operand : skipOperand (t :: (r ++ more)) = more
  nextValue : isNextValue (t :: (r ++ more)) = t.isKeyword "nextval"

/-- A token that is an operand by itself. -/
theorem readsOperand_single (signs : List Token) (h : t.kind ≠ .lparen ∧ ∀ w, t.kind ≠ .word w)
    (hsign : skipSign (signs ++ t :: more) = t :: more) : ReadsOperand (signs ++ [t]) more t [] := by
  refine ⟨by simpa using hsign, ?_, ?_⟩
  · unfold skipOperand
    dsimp only
    split
    · exact absurd ‹_› h.1
    · exact absurd ‹_› (h.2 _)
    · rfl
  · have hkey : t.isKeyword "nextval" = false := by
      rw [Token.isKeyword, Token.keyword?]
      cases hw : t.word? with
      | none => rfl
      | some w => exact absurd (kind_of_word? hw) (h.2 w)
    simp [isNextValue, hkey]

/-- **A value is read to its end** before tokens that do not go on it. -/
theorem exists_readsOperand (h : IsOperand (value.map Token.kind)) :
    ∃ t r, ∀ more, EndsOperand more → ReadsOperand value more t r := by
  generalize hk : value.map Token.kind = ks at h
  cases h with
  | string hstring =>
      obtain ⟨t, rfl, ht⟩ := List.map_eq_singleton_iff.1 hk
      refine ⟨t, [], fun more _ => ?_⟩
      have hkind : t.kind ≠ .lparen ∧ (∀ w, t.kind ≠ .word w) ∧
          t.kind ≠ .symbol '-' ∧ t.kind ≠ .symbol '+' := by
        rw [ht]
        cases hstring <;> simp
      exact readsOperand_single [] ⟨hkind.1, hkind.2.1⟩ (Ddl.skipSign_of_ne hkind.2.2)
  | number hsign text =>
      obtain ⟨signs, last, rfl, hsigns, hlast⟩ := List.map_eq_append_iff.1 hk
      obtain ⟨t, rfl, ht⟩ := List.map_eq_singleton_iff.1 hlast
      exact ⟨t, [], fun more _ => readsOperand_single signs (by simp [ht])
        (Ddl.skipSign_signs hsign hsigns (by simp [ht]))⟩
  | word text hgroup =>
      obtain ⟨t, group, rfl, ht, rfl⟩ := List.map_eq_cons_iff.1 hk
      refine ⟨t, group, fun more hmore => ⟨?_, ?_, ?_⟩⟩
      · exact Ddl.skipSign_of_ne (by simp [ht])
      · obtain ⟨hliteral, hnames⟩ := introducesLiteral_group hgroup hmore t
        unfold skipOperand
        simp only [ht, hliteral, hnames, Bool.false_eq_true, if_false]
        exact skipGroup_append hgroup hmore.parenGroup?_eq
      · rw [isNextValue, (introducesLiteral_group hgroup hmore t).1]
        simp

/-- **The default of a value** does not depend on what follows that does not go on it, and the casts that
follow are passed over. -/
theorem defaultAttribute_append (rules : Rules) (source : List Char)
    (h : IsOperand (value.map Token.kind)) (hmore : EndsOperand more) :
    defaultAttribute rules source (value ++ more) =
      ((defaultAttribute rules source value).1, skipCasts rules more) := by
  obtain ⟨t, r, hread⟩ := exists_readsOperand h
  obtain ⟨hsign, hoperand, hnext⟩ := hread more hmore
  obtain ⟨hsign', hoperand', hnext'⟩ := hread [] endsOperand_nil
  simp only [List.append_nil] at hsign' hoperand' hnext'
  unfold defaultAttribute
  rw [hsign, hsign']
  dsimp only
  rw [hoperand, hoperand', hnext, hnext']
  split
  · rfl
  · simp

/-! ### Casts -/

/-- Nothing follows that goes on the type of a cast. -/
def EndsCast (rules : Rules) (ts : List Token) : Prop :=
  ∀ t ∈ ts.head?, t.kind ≠ .lparen ∧ t.kind ≠ .lbracket ∧ ∀ w, t.ident? = some w → rules.endsType w

theorem StartsWithEnd.endsCast (h : StartsWithEnd rules ts) : EndsCast rules ts := by
  intro t ht
  obtain ⟨w, hw, hends⟩ := h t ht
  have hkind := kind_of_word? hw
  refine ⟨by simp [hkind], by simp [hkind], fun v hv => ?_⟩
  obtain rfl : w = v := by simpa [Token.ident?, hkind] using hv
  exact hends

/-- Another cast does not go on the type of a cast. -/
theorem endsCast_doubleColon (ht : t.kind = .doubleColon) : EndsCast rules (t :: r) := by
  intro u hu
  obtain rfl : t = u := Option.some.inj hu
  simp [Token.ident?, ht]

theorem EndsCast.skipBrackets_eq (h : EndsCast rules ts) : skipBrackets ts = ts := by
  cases ts with
  | nil => rfl
  | cons t r =>
      have hbracket := (h t rfl).2.1
      cases r with
      | nil => rw [skipBrackets, if_neg hbracket]
      | cons u r => rw [skipBrackets, if_neg hbracket]

/-- Pairs of brackets are skipped. -/
theorem skipBrackets_pairs {n : Nat} (hmore : EndsCast rules more)
    (h : marks.map Token.kind = (List.replicate n [.lbracket, .rbracket]).flatten) :
    skipBrackets (marks ++ more) = more := by
  induction n generalizing marks with
  | zero =>
      obtain rfl : marks = [] := by simpa using h
      exact hmore.skipBrackets_eq
  | succ n ih =>
      rw [List.replicate_succ, List.flatten_cons] at h
      obtain ⟨opening, r, rfl, hopening, hr⟩ := List.map_eq_cons_iff.1 h
      obtain ⟨closing, marks, rfl, hclosing, hmarks⟩ := List.map_eq_cons_iff.1 hr
      rw [List.cons_append, List.cons_append, skipBrackets, if_pos hopening, if_pos hclosing]
      exact ih hmarks

/-- The further words of a cast are skipped, up to a token that is no word or ends a type. -/
theorem skipTypeNames_words {others : List String} (hothers : ∀ w ∈ others, rules.endsType w = false)
    (h : names.map Token.kind = others.map .word)
    (hmore : ∀ t ∈ more.head?, ∀ w, t.ident? = some w → rules.endsType w) :
    skipTypeNames rules (names ++ more) = more := by
  induction others generalizing names with
  | nil =>
      obtain rfl : names = [] := by simpa using h
      cases more with
      | nil => rfl
      | cons t r =>
          rw [List.nil_append, skipTypeNames]
          split
          · rename_i w hw
            rw [if_pos (hmore t rfl w hw)]
          · rfl
  | cons w others ih =>
      obtain ⟨t, names, rfl, ht, hnames⟩ := List.map_eq_cons_iff.1 h
      have hident : t.ident? = some w := by simp [Token.ident?, ht]
      have hgoes : rules.endsType w = false := hothers w (by simp)
      rw [List.cons_append, skipTypeNames]
      simp only [hident, hgoes, Bool.false_eq_true, if_false]
      exact ih (fun v hv => hothers v (by simp [hv])) hnames

/-- Pairs of brackets before the end of a cast start with no parenthesis. -/
theorem parenGroup?_pairs {n : Nat}
    (h : marks.map Token.kind = (List.replicate n [.lbracket, .rbracket]).flatten)
    (hmore : EndsCast rules more) : parenGroup? (marks ++ more) = none := by
  cases n with
  | zero =>
      obtain rfl : marks = [] := by simpa using h
      cases more with
      | nil => rfl
      | cons t r => exact parenGroup?_of_ne (hmore t rfl).1
  | succ n =>
      obtain ⟨opening, r, rfl, hopening, -⟩ := List.map_eq_cons_iff.1 h
      exact parenGroup?_of_ne (by simp [hopening])

/-- Nor do they go on the words of the type. -/
theorem head_pairs {n : Nat}
    (h : marks.map Token.kind = (List.replicate n [.lbracket, .rbracket]).flatten)
    (hmore : EndsCast rules more) :
    ∀ t ∈ (marks ++ more).head?, ∀ w, t.ident? = some w → rules.endsType w := by
  intro t ht
  cases n with
  | zero =>
      obtain rfl : marks = [] := by simpa using h
      exact (hmore t ht).2.2
  | succ n =>
      obtain ⟨opening, r, rfl, hopening, -⟩ := List.map_eq_cons_iff.1 h
      obtain rfl : opening = t := by simpa using ht
      simp [Token.ident?, hopening]

/-- A group does not go on them either. -/
theorem head_group (h : IsGroup (group.map Token.kind))
    (hmore : ∀ t ∈ more.head?, ∀ w, t.ident? = some w → rules.endsType w) :
    ∀ t ∈ (group ++ more).head?, ∀ w, t.ident? = some w → rules.endsType w := by
  intro t ht
  rcases h.cases with rfl | ⟨opening, r, rfl, hopening⟩
  · exact hmore t ht
  · obtain rfl : opening = t := by simpa using ht
    simp [Token.ident?, hopening]

/-- **A cast is skipped to its end.** -/
theorem skipCastType_cast {cast : List Token} (h : IsCast rules (cast.map Token.kind))
    (hmore : EndsCast rules more) :
    ∃ t r, cast = t :: r ∧ t.kind = .doubleColon ∧ skipCastType rules (r ++ more) = more := by
  generalize hk : cast.map Token.kind = ks at h
  cases h with
  | @mk first others group n hfirst hothers hgroup =>
      obtain ⟨t, r, rfl, ht, hr⟩ := List.map_eq_cons_iff.1 hk
      obtain ⟨u, r, rfl, hu, hr⟩ := List.map_eq_cons_iff.1 hr
      obtain ⟨names, r, rfl, hnames, hr⟩ := List.map_eq_append_iff.1 hr
      obtain ⟨group, marks, rfl, rfl, hmarks⟩ := List.map_eq_append_iff.1 hr
      refine ⟨t, _, rfl, ht, ?_⟩
      have hident : u.ident? = some first := by simp [Token.ident?, hu]
      simp only [List.cons_append, List.append_assoc, skipCastType, hident, hfirst, Bool.false_eq_true,
        if_false]
      rw [skipTypeNames_words hothers hnames (head_group hgroup (head_pairs hmarks hmore)),
        skipGroup_append hgroup (parenGroup?_pairs hmarks hmore), skipBrackets_pairs hmore hmarks]

/-- Casts are nothing or start with `::`. -/
theorem IsCasts.cases {casts : List Token} (h : IsCasts rules (casts.map Token.kind)) :
    casts = [] ∨ ∃ t r, casts = t :: r ∧ t.kind = .doubleColon := by
  obtain ⟨kss, hks, hcasts⟩ := h
  cases kss with
  | nil => exact .inl (by simpa using hks)
  | cons ks kss =>
      obtain ⟨ks', rfl⟩ : ∃ ks', ks = .doubleColon :: ks' := by
        cases hcasts ks (by simp)
        exact ⟨_, rfl⟩
      obtain ⟨t, r, rfl, ht, -⟩ := List.map_eq_cons_iff.1 hks
      exact .inr ⟨t, r, rfl, ht⟩

/-- Neither a value nor a cast goes on with casts, or with a word that ends a type. -/
theorem IsCasts.ends {casts : List Token} (h : IsCasts rules (casts.map Token.kind))
    (hmore : StartsWithEnd rules more) : EndsOperand (casts ++ more) ∧ EndsCast rules (casts ++ more) := by
  rcases h.cases with rfl | ⟨t, r, rfl, ht⟩
  · exact ⟨hmore.endsOperand, hmore.endsCast⟩
  · refine ⟨fun u hu => ?_, endsCast_doubleColon ht⟩
    obtain rfl : t = u := Option.some.inj hu
    simp [ht]

/-- **Casts are skipped** up to a word that ends a type. -/
theorem skipCasts_chain {casts : List Token} (h : IsCasts rules (casts.map Token.kind))
    (hmore : StartsWithEnd rules more) : skipCasts rules (casts ++ more) = more := by
  obtain ⟨kss, hks, hcasts⟩ := h
  induction kss generalizing casts with
  | nil =>
      obtain rfl : casts = [] := by simpa using hks
      refine skipCasts_of_ne fun t ht he => ?_
      obtain ⟨w, hw, -⟩ := hmore t ht
      simp [kind_of_word? hw] at he
  | cons ks kss ih =>
      obtain ⟨cast, casts, rfl, rfl, hrest⟩ := List.map_eq_append_iff.1 hks
      have hothers : ∀ cast ∈ kss, IsCast rules cast := fun cast hc => hcasts cast (by simp [hc])
      have hnext : EndsCast rules (casts ++ more) := (IsCasts.ends ⟨kss, hrest, hothers⟩ hmore).2
      have hcast : IsCast rules (cast.map Token.kind) := hcasts _ (by simp)
      obtain ⟨t, r, rfl, ht, hskip⟩ := skipCastType_cast hcast hnext
      rw [List.append_assoc, List.cons_append, skipCasts, if_pos ht, hskip]
      exact ih hrest hothers

end Schemata.Sql
