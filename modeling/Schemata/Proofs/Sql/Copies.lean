import Schemata.Proofs.Sql.Bodies
import Schemata.Proofs.Sql.Composition

/-! # Copies of a text

A text that stands in two sources has tokens there that look alike, with the same texts
(`StandsSomewhere.copies`).  So it is read in the same way in both of them: the same column with what
follows its type (`Copies.columnOfType?`), the same default (`Copies.defaultAttribute`) and the same
attributes (`Copies.attributes`).  Whether it is taken for a column at all is told by its first two tokens
(`takenForColumn_congr`). -/

namespace Schemata.Sql

open Schemata.Text

variable {d : Dialect} {rules : Rules} {pos : Nat} {source source' pre text : List Char} {name : String}
  {c : Column} {ts us vs rest : List Token}

/-! ### Places -/

/-- A source that starts at byte `0`. -/
theorem Covers.start {n : Nat} (h : Covers rules (n + pos) source ts) :
    ∃ us, Covers rules pos source us ∧ us.map (Token.shift n) = ts := by
  generalize hp : n + pos = p at h
  induction h generalizing pos with
  | done hgap => exact ⟨[], .done hgap, rfl⟩
  | @token p gap text rest kind tokens hgap hlexes _ ih =>
      subst hp
      obtain ⟨us, hus, rfl⟩ := @ih (pos + byteLength gap + byteLength text) (by omega)
      refine ⟨_, .token hgap hlexes hus, ?_⟩
      rw [List.map_cons, Token.shift, ← Nat.add_assoc, ← Nat.add_assoc, ← Nat.add_assoc]

/-- The tokens of a text that stands in a source are those of the text alone, moved to its place. -/
theorem Stands.alone (h : Stands d source pre text ts) :
    ∃ us, tokenize (rulesOf d) text = .ok us ∧ us.map (Token.shift (byteLength pre)) = ts := by
  have hcovers := covers_of_tokensFrom h.tokens
  rw [← Nat.add_zero (byteLength pre)] at hcovers
  obtain ⟨us, hus, hmoved⟩ := hcovers.start
  exact ⟨us, tokensFrom_of_covers hus, hmoved⟩

/-! ### Copies -/

/-- Tokens of two sources that look alike, with the same texts. -/
def Copies (source source' : List Char) (ts us : List Token) : Prop :=
  Alike ⟨source, source', True⟩ ts us

/-- What two lists of tokens are copies of does not matter. -/
theorem Copies.both {origin : List Char} (h : Copies origin source ts us)
    (h' : Copies origin source' ts vs) : Copies source source' us vs := by
  unfold Copies at *
  induction h generalizing vs with
  | nil =>
      cases h'
      exact .nil
  | @cons t u ts us hkind htouch htext halike ih =>
      cases h' with
      | @cons _ v _ vs hkind' htouch' htext' halike' =>
          refine .cons (hkind.symm.trans hkind') (fun u' hu v' hv => ?_) (fun n _ => ?_) (ih halike')
          · obtain ⟨t', ht⟩ : ∃ t', t' ∈ ts.head? := by
              cases halike with
              | nil => simp at hu
              | cons => exact ⟨_, rfl⟩
            exact (htouch t' ht u' hu).symm.trans (htouch' t' ht v' hv)
          · exact (htext n trivial).symm.trans (htext' n trivial)

/-- **A text that stands in two sources** has copies of the same tokens. -/
theorem StandsSomewhere.copies (h : StandsSomewhere d source text ts)
    (h' : StandsSomewhere d source' text us) : Copies source source' ts us := by
  obtain ⟨pre, h⟩ := h
  obtain ⟨pre', h'⟩ := h'
  obtain ⟨vs, hvs, rfl⟩ := h.alone
  obtain ⟨vs', hvs', rfl⟩ := h'.alone
  obtain rfl : vs = vs' := Except.ok.inj (hvs.symm.trans hvs')
  obtain ⟨post, rfl⟩ := h.place
  obtain ⟨post', rfl⟩ := h'.place
  exact Copies.both (alike_shift hvs pre post) (alike_shift hvs' pre' post')

namespace Copies

variable {t u : Token}

theorem map_kind (h : Copies source source' ts us) : ts.map Token.kind = us.map Token.kind := by
  unfold Copies at h
  induction h with
  | nil => rfl
  | cons hkind _ _ _ ih => rw [List.map_cons, List.map_cons, hkind, ih]

/-- A copy falls apart where its origin does. -/
theorem of_append (h : Copies source source' (ts ++ rest) us) :
    ∃ us' rest', us = us' ++ rest' ∧ Copies source source' ts us' ∧ Copies source source' rest rest' := by
  have hfront := h.take ts.length
  have hback := h.drop ts.length
  rw [List.take_left] at hfront
  rw [List.drop_left] at hback
  exact ⟨_, _, (List.take_append_drop ts.length us).symm, hfront, hback⟩

theorem of_cons (h : Copies source source' (t :: ts) us) :
    ∃ u us', us = u :: us' ∧ t.kind = u.kind ∧ Copies source source' ts us' := by
  cases h with
  | cons hkind _ _ h => exact ⟨_, _, rfl, hkind, h⟩

/-- A copy of a type makes the same column, and what follows it is copied. -/
theorem columnOfType? (h : Copies source source' ts us)
    (htype : columnOfType? rules source name ts = some (c, rest)) :
    ∃ rest', Sql.columnOfType? rules source' name us = some (c, rest') ∧
      Copies source source' rest rest' := by
  rcases Alike.columnOfType? rules h name with ⟨he, -⟩ | ⟨c₁, c₂, rest₁, rest₂, he, he', hc, hrest⟩
  · exact absurd (he.symm.trans htype) (by simp)
  · obtain ⟨rfl, rfl⟩ := Prod.mk.inj (Option.some.inj (he.symm.trans htype))
    obtain rfl := hc.eq trivial
    exact ⟨rest₂, he', hrest⟩

/-- Attributes that are alike with the same texts are the same. -/
theorem attribute_eq {a a' : Attribute} (h : AlikeAttributes ⟨source, source', True⟩ a a') : a = a' := by
  cases h with
  | defaultTo htext => rw [htext trivial]
  | same => rfl

theorem defaultAttribute (rules : Rules) (h : Copies source source' ts us) :
    (defaultAttribute rules source ts).1 = (Sql.defaultAttribute rules source' us).1 := by
  have hall : AlikeReads ⟨source, source', True⟩ (Sql.defaultAttribute rules source ts)
      (Sql.defaultAttribute rules source' us) := Alike.defaultAttribute h
  exact attribute_eq hall.1

/-- **Copies have the same attributes.** -/
theorem attributes (rules : Rules) (h : Copies source source' ts us) :
    attributes rules source ts = Sql.attributes rules source' us :=
  eq_of_forall₂ (Alike.attributes rules h) fun _ _ => attribute_eq

end Copies

/-! ### Columns and constraints -/

/-- Whether a definition is taken for a column and not for a constraint or an index. -/
def TakenForColumn (rules : Rules) (ts : List Token) : Prop :=
  afterWords ["constraint"] ts = none ∧ startsTableConstraint rules ts = false

/-- A definition that is taken for a column is what its declaration says. -/
theorem TakenForColumn.ofTokens_eq {definition : Definition} (h : TakenForColumn rules ts)
    (hdefinition : columnDefinition? rules source ts = some definition) :
    Definition.ofTokens rules source ts = definition := by
  unfold Definition.ofTokens
  simp [h.1, h.2, hdefinition]

/-- The first two tokens tell whether a definition is taken for a column. -/
theorem takenForColumn_congr {t t' u u' : Token} (ht : t.kind = t'.kind) (hu : u.kind = u'.kind)
    (rules : Rules) (r r' : List Token) :
    TakenForColumn rules (t :: u :: r) ↔ TakenForColumn rules (t' :: u' :: r') := by
  have hwords : ∀ words, startsWithOneOf words (u :: r) = startsWithOneOf words (u' :: r') := by
    intro words
    exact isOneOf_congr hu words
  have hindex : startsIndex rules (t :: u :: r) = startsIndex rules (t' :: u' :: r') := by
    rw [startsIndex, startsIndex]
    exact congrArg _ (isOneOf_congr ht indexWords)
  have hstart : startsTableConstraint rules (t :: u :: r) = startsTableConstraint rules (t' :: u' :: r') := by
    simp only [startsTableConstraint, isOneOf_congr ht, isKeyword_congr ht, hwords, hindex,
      List.head?_cons, Option.any_some, hu]
  simp [TakenForColumn, hstart, afterWords, isKeyword_congr ht]

end Schemata.Sql
