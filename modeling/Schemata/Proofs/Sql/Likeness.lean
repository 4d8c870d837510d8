import Mathlib.Data.List.Forall2
import Schemata.Sql.Script

/-! # Tokens that look alike

Tokens of two sources look alike if they have the same kinds, if two neighbours touch in the one source
where they touch in the other, and, where texts matter, if the same texts stand there (`Alike`).  Nothing
else of a source is looked at in reading: what is read of tokens that look alike is the same up to texts,
and what is left of them looks alike (`Alike.readAttribute`, `Alike.columnOfType?`). -/

namespace Schemata.Sql

open Schemata.Text

variable {rules : Rules} {t u : Token} {ts us : List Token}

/-! ### Two sources -/

/-- Two sources, and whether texts that are cut out of them have to be the same. -/
structure Sources where
  left : List Char
  right : List Char
  exact : Prop

variable {s : Sources}

/-- Texts that are the same if they have to be. -/
def SameText (s : Sources) (x y : String) : Prop := s.exact → x = y

/-- Tokens that look alike. -/
inductive Alike (s : Sources) : List Token → List Token → Prop
  | nil : Alike s [] []
  | cons {t u : Token} {ts us : List Token} (hkind : t.kind = u.kind)
      (htouch : ∀ t' ∈ ts.head?, ∀ u' ∈ us.head?,
        (t'.span.start = t.span.stop ↔ u'.span.start = u.span.stop))
      (htext : ∀ n, SameText s (sourceText s.left ((t :: ts).take n))
        (sourceText s.right ((u :: us).take n)))
      (h : Alike s ts us) : Alike s (t :: ts) (u :: us)

/-! ### Tokens of one kind -/

theorem word?_congr (h : t.kind = u.kind) : t.word? = u.word? := by
  rw [Token.word?, Token.word?, h]

theorem ident?_congr (h : t.kind = u.kind) : t.ident? = u.ident? := by
  rw [Token.ident?, Token.ident?, h]

theorem string?_congr (h : t.kind = u.kind) : t.string? = u.string? := by
  rw [Token.string?, Token.string?, h]

theorem keyword?_congr (h : t.kind = u.kind) : t.keyword? = u.keyword? := by
  rw [Token.keyword?, Token.keyword?, word?_congr h]

theorem isKeyword_congr (h : t.kind = u.kind) (word : String) : t.isKeyword word = u.isKeyword word := by
  rw [Token.isKeyword, Token.isKeyword, keyword?_congr h]

theorem isOneOf_congr (h : t.kind = u.kind) (words : List String) : t.isOneOf words = u.isOneOf words := by
  rw [Token.isOneOf, Token.isOneOf, funext (isKeyword_congr h)]

namespace Alike

/-! ### Runs -/

theorem length_eq (h : Alike s ts us) : ts.length = us.length := by
  induction h with
  | nil => rfl
  | cons _ _ _ _ ih => rw [List.length_cons, List.length_cons, ih]

theorem take (h : Alike s ts us) (n : Nat) : Alike s (ts.take n) (us.take n) := by
  have head : ∀ {m t} {l : List Token}, t ∈ (l.take m).head? → t ∈ l.head? := by
    intro m t l ht
    rw [List.head?_take] at ht
    split at ht
    · simp at ht
    · exact ht
  induction h generalizing n with
  | nil => simpa using .nil
  | @cons t u ts us hkind htouch htext _ ih =>
      cases n with
      | zero => exact .nil
      | succ n =>
          refine .cons hkind (fun t' ht u' hu => htouch t' (head ht) u' (head hu)) (fun m => ?_) (ih n)
          · rw [← List.take_succ_cons, ← List.take_succ_cons, List.take_take, List.take_take]
            exact htext _

theorem drop (h : Alike s ts us) (n : Nat) : Alike s (ts.drop n) (us.drop n) := by
  induction h generalizing n with
  | nil => simpa using .nil
  | cons hkind htouch htext h ih =>
      cases n with
      | zero => exact .cons hkind htouch htext h
      | succ n => exact ih n

theorem tail (h : Alike s ts us) : Alike s ts.tail us.tail := by
  cases h with
  | nil => exact .nil
  | cons _ _ _ h => exact h

/-- What stands at the front of tokens that look alike is the same if texts matter. -/
theorem sourceText_take (h : Alike s ts us) (n : Nat) :
    SameText s (sourceText s.left (ts.take n)) (sourceText s.right (us.take n)) := by
  cases h with
  | nil => simp [SameText, Sql.sourceText]
  | cons _ _ htext _ => exact htext n

theorem sourceText (h : Alike s ts us) :
    SameText s (sourceText s.left ts) (sourceText s.right us) := by
  have := h.sourceText_take ts.length
  rwa [List.take_length, h.length_eq, List.take_length] at this

/-! ### Groups -/

theorem closingFrom (h : Alike s ts us) (depth : Nat) :
    closingFrom depth ts = closingFrom depth us := by
  induction h generalizing depth with
  | nil => rfl
  | @cons t u ts us hkind _ _ _ ih =>
      cases hk : u.kind with
      | rparen => cases depth with
        | zero => simp only [Sql.closingFrom, hkind.trans hk, hk]
        | succ n => cases n <;> simp only [Sql.closingFrom, hkind.trans hk, hk, ih]
      | _ => simp only [Sql.closingFrom, hkind.trans hk, hk, ih]

theorem parenGroup? (h : Alike s ts us) :
    (parenGroup? ts = none ∧ parenGroup? us = none) ∨ ∃ group rest group' rest',
      parenGroup? ts = some (group, rest) ∧ parenGroup? us = some (group', rest') ∧
        Alike s group group' ∧ Alike s rest rest' := by
  cases h with
  | nil => exact .inl ⟨rfl, rfl⟩
  | @cons t u ts us hkind _ _ h =>
      by_cases hp : u.kind = .lparen
      · rw [Sql.parenGroup?, Sql.parenGroup?, if_pos (hkind.trans hp), if_pos hp, h.closingFrom]
        split
        · exact .inr ⟨_, _, _, _, rfl, rfl, h.take _, h.drop _⟩
        · exact .inr ⟨_, _, _, _, rfl, rfl, h, .nil⟩
      · rw [Sql.parenGroup?, Sql.parenGroup?, if_neg (hkind ▸ hp), if_neg hp]
        exact .inl ⟨rfl, rfl⟩

theorem skipGroup (h : Alike s ts us) : Alike s (skipGroup ts) (skipGroup us) := by
  unfold Sql.skipGroup
  rcases h.parenGroup? with ⟨he, he'⟩ | ⟨_, _, _, _, he, he', -, hrest⟩
  · rw [he, he']
    exact h
  · rw [he, he']
    exact hrest

/-! ### Words and names -/

theorem afterWords (h : Alike s ts us) (words : List String) :
    (afterWords words ts = none ∧ afterWords words us = none) ∨ ∃ rest rest',
      afterWords words ts = some rest ∧ afterWords words us = some rest' ∧ Alike s rest rest' := by
  induction words generalizing ts us with
  | nil => exact .inr ⟨ts, us, rfl, rfl, h⟩
  | cons word words ih =>
      cases h with
      | nil => exact .inl ⟨rfl, rfl⟩
      | @cons t u ts us hkind _ _ h =>
          rw [Sql.afterWords, Sql.afterWords, isKeyword_congr hkind]
          split
          · exact ih h
          · exact .inl ⟨rfl, rfl⟩

theorem afterWords_getD (h : Alike s ts us) (words : List String) {ts' us' : List Token}
    (h' : Alike s ts' us') :
    Alike s ((Sql.afterWords words ts).getD ts') ((Sql.afterWords words us).getD us') := by
  rcases h.afterWords words with ⟨he, he'⟩ | ⟨_, _, he, he', hrest⟩
  · rw [he, he']
    exact h'
  · rw [he, he']
    exact hrest

theorem skipWord (h : Alike s ts us) (word : String) : Alike s (skipWord word ts) (skipWord word us) :=
  h.afterWords_getD [word] h

theorem startsWithOneOf (h : Alike s ts us) (words : List String) :
    startsWithOneOf words ts = startsWithOneOf words us := by
  cases h with
  | nil => rfl
  | cons hkind => exact isOneOf_congr hkind words

theorem furtherNames (h : Alike s ts us) :
    (furtherNames ts).1 = (furtherNames us).1 ∧ Alike s (furtherNames ts).2 (furtherNames us).2 := by
  fun_induction Sql.furtherNames ts generalizing us with
  | case1 p t r name ht hp names rest hread ih =>
      cases h with
      | @cons _ q _ us hp' _ _ h =>
          cases h with
          | @cons _ u _ us ht' _ _ h =>
              obtain ⟨hnames, hrest⟩ := ih h
              rw [hread] at hnames hrest
              simp only [Sql.furtherNames, ← ident?_congr ht', ht, ← hp', hp, if_true]
              exact ⟨congrArg _ hnames, hrest⟩
  | case2 p t r name ht hp =>
      cases h with
      | @cons _ q _ us hp' htouch htext h =>
          cases h with
          | @cons _ u _ us ht' htouch' htext' h =>
              simp only [Sql.furtherNames, ← ident?_congr ht', ht, ← hp', hp, if_false, true_and]
              exact .cons hp' htouch htext (.cons ht' htouch' htext' h)
  | case3 p t r ht =>
      cases h with
      | @cons _ q _ us hp' htouch htext h =>
          cases h with
          | @cons _ u _ us ht' htouch' htext' h =>
              simp only [Sql.furtherNames, ← ident?_congr ht', ht, true_and]
              exact .cons hp' htouch htext (.cons ht' htouch' htext' h)
  | case4 ts hshort =>
      have hsame : Sql.furtherNames us = ([], us) := by
        cases h with
        | nil => rfl
        | cons _ _ _ h =>
            cases h with
            | nil => rfl
            | cons => exact absurd rfl (hshort _ _ _)
      rw [hsame]
      exact ⟨rfl, h⟩

theorem qualifiedName? (h : Alike s ts us) :
    (qualifiedName? ts = none ∧ qualifiedName? us = none) ∨ ∃ names rest rest',
      qualifiedName? ts = some (names, rest) ∧ qualifiedName? us = some (names, rest') ∧
        Alike s rest rest' := by
  cases h with
  | nil => exact .inl ⟨rfl, rfl⟩
  | @cons t u ts us hkind _ _ h =>
      obtain ⟨hnames, hrest⟩ := h.furtherNames
      rw [Sql.qualifiedName?, Sql.qualifiedName?, ← ident?_congr hkind]
      cases t.ident? with
      | none => exact .inl ⟨rfl, rfl⟩
      | some name => exact .inr ⟨_, _, _, rfl, by rw [hnames]; rfl, hrest⟩

theorem dropWhile (h : Alike s ts us) {p : Token → Bool} (hp : ∀ {t u}, t.kind = u.kind → p t = p u) :
    Alike s (ts.dropWhile p) (us.dropWhile p) := by
  induction h with
  | nil => exact .nil
  | cons hkind htouch htext h ih =>
      rw [List.dropWhile_cons, List.dropWhile_cons, hp hkind]
      split
      · exact ih
      · exact .cons hkind htouch htext h

/-! ### Parts -/

/-- Lists whose first parts are as long as each other and start the tokens, and whose other parts are
alike. -/
def AlikeParts (s : Sources) (ts us : List Token) (parts parts' : List (List Token)) : Prop :=
  ∃ n rest rest', parts = ts.take n :: rest ∧ parts' = us.take n :: rest' ∧
    List.Forall₂ (Alike s) rest rest'

theorem AlikeParts.forall₂ {parts parts' : List (List Token)} (h : Alike s ts us)
    (hparts : AlikeParts s ts us parts parts') : List.Forall₂ (Alike s) parts parts' := by
  obtain ⟨n, rest, rest', rfl, rfl, hrest⟩ := hparts
  exact .cons (h.take n) hrest

theorem partsFrom (h : Alike s ts us) (depth : Nat) :
    AlikeParts s ts us (partsFrom depth ts) (partsFrom depth us) := by
  induction h generalizing depth with
  | nil => exact ⟨0, [], [], rfl, rfl, .nil⟩
  | @cons t u ts us hkind _ _ h ih =>
      have hdepth : depthAfter depth t = depthAfter depth u := by
        rw [depthAfter, depthAfter, hkind]
      rw [Sql.partsFrom, Sql.partsFrom, hkind, hdepth]
      split
      · exact ⟨0, _, _, rfl, rfl, (ih depth).forall₂ h⟩
      · obtain ⟨n, rest, rest', he, he', hrest⟩ := ih (depthAfter depth u)
        rw [he, he']
        exact ⟨n + 1, rest, rest', rfl, rfl, hrest⟩

theorem split (h : Alike s ts us) :
    AlikeParts s ts us (statements.split ts) (statements.split us) := by
  induction h with
  | nil => exact ⟨0, [], [], rfl, rfl, .nil⟩
  | @cons t u ts us hkind _ _ h ih =>
      rw [statements.split, statements.split, hkind]
      split
      · exact ⟨0, _, _, rfl, rfl, ih.forall₂ h⟩
      · obtain ⟨n, rest, rest', he, he', hrest⟩ := ih
        rw [he, he']
        exact ⟨n + 1, rest, rest', rfl, rfl, hrest⟩

theorem forall₂_filter {parts parts' : List (List Token)} (h : List.Forall₂ (Alike s) parts parts') :
    List.Forall₂ (Alike s) (parts.filter (!·.isEmpty)) (parts'.filter (!·.isEmpty)) := by
  refine List.rel_filter ?_ h
  intro part part' hpart
  cases hpart <;> simp

theorem splitDefinitions (h : Alike s ts us) :
    List.Forall₂ (Alike s) (splitDefinitions ts) (splitDefinitions us) :=
  forall₂_filter ((h.partsFrom 0).forall₂ h)

theorem statements (h : Alike s ts us) : List.Forall₂ (Alike s) (statements ts) (statements us) :=
  forall₂_filter (h.split.forall₂ h)

/-! ### Defaults -/

theorem skipSign (h : Alike s ts us) : Alike s (skipSign ts) (skipSign us) := by
  cases h with
  | nil => exact .nil
  | @cons t u ts us hkind htouch htext h =>
      rw [Sql.skipSign, Sql.skipSign, hkind]
      split
      · exact h
      · exact .cons hkind htouch htext h

theorem introducesLiteral {t u : Token} (h : Alike s (t :: ts) (u :: us)) :
    introducesLiteral t ts = introducesLiteral u us := by
  cases h with
  | cons hkind htouch _ h =>
      cases h with
      | nil => rfl
      | @cons t' u' _ _ hkind' _ _ _ =>
          rw [Sql.introducesLiteral, Sql.introducesLiteral, hkind']
          split
          · rw [Bool.eq_iff_iff, beq_iff_eq, beq_iff_eq]
            exact htouch t' rfl u' rfl
          · rfl

theorem skipOperand (h : Alike s ts us) : Alike s (skipOperand ts) (skipOperand us) := by
  cases h with
  | nil => exact .nil
  | @cons t u ts us hkind htouch htext h =>
      have hall : Alike s (t :: ts) (u :: us) := .cons hkind htouch htext h
      rw [Sql.skipOperand, Sql.skipOperand, hkind, hall.introducesLiteral]
      split
      · exact hall.skipGroup
      · split
        · exact h.tail
        · exact h.furtherNames.2.skipGroup
      · exact h

theorem isNextValue (h : Alike s ts us) : isNextValue ts = isNextValue us := by
  cases h with
  | nil => rfl
  | @cons t u ts us hkind htouch htext h =>
      have hall : Alike s (t :: ts) (u :: us) := .cons hkind htouch htext h
      rw [Sql.isNextValue, Sql.isNextValue, isKeyword_congr hkind, hall.introducesLiteral]

theorem skipTypeNames (h : Alike s ts us) : Alike s (skipTypeNames rules ts) (skipTypeNames rules us) := by
  induction h with
  | nil => exact .nil
  | @cons t u ts us hkind htouch htext h ih =>
      rw [Sql.skipTypeNames, Sql.skipTypeNames, ident?_congr hkind]
      split
      · split
        · exact .cons hkind htouch htext h
        · exact ih
      · exact .cons hkind htouch htext h

theorem skipBrackets (h : Alike s ts us) : Alike s (skipBrackets ts) (skipBrackets us) := by
  fun_induction Sql.skipBrackets ts generalizing us with
  | case1 => cases h; exact .nil
  | case2 t ht =>
      cases h with
      | cons hkind _ _ h =>
          cases h
          rw [Sql.skipBrackets, if_pos (hkind ▸ ht)]
          exact .nil
  | case3 t ht =>
      cases h with
      | cons hkind htouch htext h =>
          cases h
          rw [Sql.skipBrackets, if_neg (hkind ▸ ht)]
          exact .cons hkind htouch htext .nil
  | case4 t u r ht hu ih =>
      cases h with
      | cons hkind _ _ h =>
          cases h with
          | cons hkind' _ _ h =>
              rw [Sql.skipBrackets, if_pos (hkind ▸ ht), if_pos (hkind' ▸ hu)]
              exact ih h
  | case5 t u r ht hu ih =>
      cases h with
      | cons hkind _ _ h =>
          cases h with
          | cons hkind' htouch htext h =>
              rw [Sql.skipBrackets, if_pos (hkind ▸ ht), if_neg (hkind' ▸ hu)]
              exact ih (.cons hkind' htouch htext h)
  | case6 t u r ht =>
      cases h with
      | cons hkind htouch htext h =>
          cases h with
          | cons hkind' htouch' htext' h =>
              rw [Sql.skipBrackets, if_neg (hkind ▸ ht)]
              exact .cons hkind htouch htext (.cons hkind' htouch' htext' h)

theorem skipCastType (h : Alike s ts us) : Alike s (skipCastType rules ts) (skipCastType rules us) := by
  unfold Sql.skipCastType
  refine (skipGroup ?_).skipBrackets
  cases h with
  | nil => exact .nil
  | @cons t u ts us hkind htouch htext h =>
      have hall : Alike s (t :: ts) (u :: us) := .cons hkind htouch htext h
      dsimp only
      rw [ident?_congr hkind]
      split
      · split
        · exact hall
        · exact h.skipTypeNames
      · exact hall

theorem skipCasts (h : Alike s ts us) : Alike s (skipCasts rules ts) (skipCasts rules us) := by
  fun_induction Sql.skipCasts rules ts generalizing us with
  | case1 => cases h; simpa [Sql.skipCasts] using .nil
  | case2 t r ht ih =>
      cases h with
      | cons hkind _ _ h =>
          rw [Sql.skipCasts, if_pos (hkind ▸ ht)]
          exact ih h.skipCastType
  | case3 t r ht =>
      cases h with
      | cons hkind htouch htext h =>
          rw [Sql.skipCasts, if_neg (hkind ▸ ht)]
          exact .cons hkind htouch htext h

end Alike

/-! ### Attributes -/

/-- Attributes that are the same up to the texts of defaults. -/
inductive AlikeAttributes (s : Sources) : Attribute → Attribute → Prop
  | defaultTo {x y : String} (h : SameText s x y) : AlikeAttributes s (.defaultTo x) (.defaultTo y)
  | same (a : Attribute) : AlikeAttributes s a a

/-- Attributes with what follows them. -/
def AlikeReads (s : Sources) (p q : Attribute × List Token) : Prop :=
  AlikeAttributes s p.1 q.1 ∧ Alike s p.2 q.2

theorem alikeReads (a : Attribute) (h : Alike s ts us) : AlikeReads s (a, ts) (a, us) :=
  ⟨.same a, h⟩

namespace Alike

theorem defaultAttribute (h : Alike s ts us) :
    AlikeReads s (defaultAttribute rules s.left ts) (defaultAttribute rules s.right us) := by
  unfold Sql.defaultAttribute
  have hsign := h.skipSign
  cases hts : Sql.skipSign ts with
  | nil =>
      rw [hts] at hsign
      generalize Sql.skipSign us = us' at hsign
      cases hsign
      exact alikeReads _ .nil
  | cons t r =>
      rw [hts] at hsign
      generalize Sql.skipSign us = us' at hsign
      cases hsign with
      | @cons _ u _ r' hkind htouch htext hr =>
          have hall : Alike s (t :: r) (u :: r') := .cons hkind htouch htext hr
          have hoperand := hall.skipOperand
          dsimp only
          rw [hall.isNextValue, h.length_eq, hoperand.length_eq]
          split
          · exact alikeReads _ hoperand.skipCasts
          · exact ⟨.defaultTo (h.sourceText_take _), hoperand.skipCasts⟩

theorem commentAttribute (h : Alike s ts us) :
    AlikeReads s (commentAttribute ts) (commentAttribute us) := by
  cases h with
  | nil => exact alikeReads _ .nil
  | @cons t u ts us hkind htouch htext h =>
      rw [Sql.commentAttribute, Sql.commentAttribute, string?_congr hkind]
      split
      · exact alikeReads _ h
      · exact alikeReads _ (.cons hkind htouch htext h)

theorem generatedAttribute (h : Alike s ts us) :
    AlikeReads s (generatedAttribute ts) (generatedAttribute us) := by
  unfold Sql.generatedAttribute
  extract_lets r₁ r₂ r₃ r₁' r₂' r₃'
  have h₁ : Alike s r₁ r₁' := by
    dsimp only [r₁, r₁']
    rcases h.afterWords ["always"] with ⟨he, he'⟩ | ⟨_, _, he, he', hrest⟩
    · rw [he, he']
      exact h.afterWords_getD _ h
    · rw [he, he']
      exact hrest
  have h₂ : Alike s r₂ r₂' := h₁.skipWord "as"
  rcases h₂.afterWords ["identity"] with ⟨he, he'⟩ | ⟨_, _, he, he', hrest⟩
  · rw [he, he']
    exact alikeReads _ (h₂.skipGroup.afterWords_getD _ (h₂.skipGroup.skipWord "virtual"))
  · rw [he, he']
    exact alikeReads _ hrest.skipGroup

theorem isUpdateValue (h : Alike s ts us) : isUpdateValue ts = isUpdateValue us := by
  unfold Sql.isUpdateValue
  rcases h.afterWords ["update"] with ⟨he, he'⟩ | ⟨_, _, he, he', hrest⟩
  · rw [he, he']
  · rw [he, he']
    dsimp only
    rw [hrest.startsWithOneOf]

theorem onAttribute (h : Alike s ts us) : AlikeReads s (onAttribute ts) (onAttribute us) := by
  have hr := h.afterWords_getD ["update"] (h.skipWord "delete")
  unfold Sql.onAttribute
  dsimp only
  rw [h.isUpdateValue, hr.startsWithOneOf]
  refine ⟨.same _, ?_⟩
  dsimp only
  split
  · exact hr.drop 2
  · exact (hr.drop 1).skipGroup

theorem skipConstraintName (h : Alike s ts us) :
    Alike s (skipConstraintName ts) (skipConstraintName us) := by
  cases h with
  | nil => exact .nil
  | @cons t u ts us hkind htouch htext h =>
      rw [Sql.skipConstraintName, Sql.skipConstraintName, word?_congr hkind]
      split
      · exact .cons hkind htouch htext h
      · exact h

/-- An attribute that depends on whether the given words follow. -/
theorem readAfterWords (h : Alike s ts us) (words : List String) (a b : Attribute)
    {f : List Token → List Token} (hf : ∀ {ts us}, Alike s ts us → Alike s (f ts) (f us)) :
    AlikeReads s
      (match Sql.afterWords words ts with
        | some rest => (a, f rest)
        | none => (b, ts))
      (match Sql.afterWords words us with
        | some rest => (a, f rest)
        | none => (b, us)) := by
  rcases h.afterWords words with ⟨he, he'⟩ | ⟨_, _, he, he', hrest⟩
  · rw [he, he']
    exact alikeReads b h
  · rw [he, he']
    exact alikeReads a (hf hrest)

/-- **Attributes are read from tokens that look alike** as the same ones up to texts. -/
theorem readAttribute {t u : Token} (hall : Alike s (t :: ts) (u :: us)) :
    AlikeReads s (readAttribute rules s.left t ts) (readAttribute rules s.right u us) := by
  cases hall with
  | cons hkind htouch htext h =>
      have hall : Alike s (t :: ts) (u :: us) := .cons hkind htouch htext h
      unfold Sql.readAttribute
      rw [keyword?_congr hkind]
      split
      · exact h.readAfterWords ["null"] _ _ id
      · exact alikeReads _ h
      · exact h.defaultAttribute
      · exact h.readAfterWords ["key"] _ _ id
      · exact alikeReads _ h
      · exact alikeReads _ (h.afterWords_getD _ (h.skipWord _))
      · exact alikeReads _ h
      · exact alikeReads _ h
      · exact alikeReads _ h
      · exact h.commentAttribute
      · exact h.generatedAttribute
      · exact alikeReads _ h.skipGroup
      · refine alikeReads _ (skipGroup ?_)
        rcases h.qualifiedName? with ⟨he, he'⟩ | ⟨_, _, _, he, he', hrest⟩
        · rw [he, he']
          exact h
        · rw [he, he']
          exact hrest
      · exact alikeReads _ (h.drop 1)
      · exact h.onAttribute
      · exact alikeReads _ h.skipGroup
      · exact alikeReads _ h.skipConstraintName
      · exact alikeReads _ (h.drop 1)
      · exact alikeReads _ (h.drop 1)
      · exact h.readAfterWords ["set"] _ _ (·.drop 1)
      · exact alikeReads _ h
      · rcases hall.parenGroup? with ⟨he, he'⟩ | ⟨_, _, _, _, he, he', -, hrest⟩
        · rw [he, he']
          exact alikeReads _ h
        · rw [he, he']
          exact alikeReads _ hrest

theorem attributes (rules : Rules) (h : Alike s ts us) :
    List.Forall₂ (AlikeAttributes s) (attributes rules s.left ts) (attributes rules s.right us) := by
  suffices ∀ source, source = s.left → List.Forall₂ (AlikeAttributes s)
      (Sql.attributes rules source ts) (Sql.attributes rules s.right us) from this _ rfl
  intro source hsource
  fun_induction Sql.attributes rules source ts generalizing us with
  | case1 =>
      cases h
      simp [Sql.attributes]
  | case2 t r =>
      rename_i ih
      cases h with
      | @cons _ u _ r' hkind htouch htext h =>
          have hread : AlikeReads s (Sql.readAttribute rules source t r)
              (Sql.readAttribute rules s.right u r') :=
            hsource ▸ readAttribute (.cons hkind htouch htext h)
          rw [Sql.attributes]
          exact .cons hread.1 (ih hread.2)

end Alike

end Schemata.Sql
