import Mathlib.Data.List.Forall2
import Schemata.Proofs.Sql.Nesting
import Schemata.Proofs.Sql.Places

/-! # Texts between commas

A text in which commas stand between parts is divided into the tokens of these parts, each of which
stands where its text does (`Stands.definitions`). -/

namespace Schemata.Sql

open Schemata.Text

variable {d : Dialect} {source pre gap text : List Char} {ts : List Token}

/-- A text has these tokens somewhere in the source. -/
def StandsSomewhere (d : Dialect) (source text : List Char) (ts : List Token) : Prop :=
  ∃ pre, Stands d source pre text ts

/-- Blanks before a text do not matter. -/
theorem Stands.afterBlanks (h : Stands d source pre (gap ++ text) ts)
    (hgap : ∀ c ∈ gap, isBlank c) : StandsSomewhere d source text ts := by
  induction gap generalizing pre with
  | nil => exact ⟨pre, h⟩
  | cons c gap ih =>
      exact ih (h.blank (hgap c (by simp))) fun e he => hgap e (by simp [he])

/-- The parts between commas stand where their texts do, if no text is divided and only the last one
leaves a parenthesis open. -/
theorem Stands.parts {texts : List (List Char)} {kss : List (List TokenKind)} (hne : texts ≠ [])
    (hgap : ∀ c ∈ gap, isBlank c) (hgives : List.Forall₂ (Gives d) texts kss)
    (hundivided : ∀ ks ∈ kss, Undivided 0 ks) (hopen : ∀ ks ∈ kss.dropLast, openAfter 0 ks = 0)
    (h : Stands d source pre ((',' :: gap).intercalate texts) ts) :
    List.Forall₂ (StandsSomewhere d source) texts (partsFrom 0 ts) := by
  induction hgives generalizing pre ts with
  | nil => exact absurd rfl hne
  | @cons text ks texts kss hks hrest ih =>
      have hk : Undivided 0 ks := hundivided ks (by simp)
      cases hrest with
      | nil =>
          rw [List.intercalate_singleton] at h
          have hparts : partsFrom 0 ts = [ts] := by
            have hkinds : Undivided 0 (ts.map Token.kind) := by
              rw [h.kinds hks]
              exact hk
            simpa [partsFrom, beforeFirst] using partsFrom_undivided [] hkinds
          rw [hparts]
          exact .cons ⟨pre, h⟩ .nil
      | @cons text' ks' texts' kss' _ _ =>
          rw [List.intercalate_cons_cons, List.append_assoc, List.cons_append] at h
          obtain ⟨ts₁, ts₂, rfl, h₁, h₂⟩ := h.split hks (separated_cons.2 (by decide))
          have hcomma : punctuation.lookup ',' = some .comma := rfl
          obtain ⟨us, rfl, hus⟩ := h₂.punct hcomma
          obtain ⟨pre', hus⟩ := hus.afterBlanks hgap
          have hclosed : openAfter 0 ks = 0 := hopen ks (by simp)
          rw [← h₁.kinds hks] at hk hclosed
          rw [partsFrom_undivided _ hk, hclosed, partsFrom, if_pos ⟨rfl, rfl⟩]
          simp only [beforeFirst, List.append_nil]
          refine .cons ⟨pre, h₁⟩ (ih (by simp) (fun ks hks => hundivided ks (by simp [hks])) ?_ hus)
          exact fun ks hks => hopen ks (by rw [List.dropLast_cons_cons]; exact List.mem_cons_of_mem _ hks)

/-- The parts that are not empty are the definitions of a text. -/
theorem Stands.groups {texts : List (List Char)} {kss : List (List TokenKind)}
    (hgap : ∀ c ∈ gap, isBlank c) (hgives : List.Forall₂ (Gives d) texts kss)
    (hundivided : ∀ ks ∈ kss, Undivided 0 ks ∧ ks ≠ [])
    (hopen : ∀ ks ∈ kss.dropLast, openAfter 0 ks = 0)
    (h : Stands d source pre ((',' :: gap).intercalate texts) ts) :
    List.Forall₂ (StandsSomewhere d source) texts (splitDefinitions ts) := by
  by_cases hne : texts = []
  · subst hne
    obtain rfl := h.nil
    exact .nil
  · have hparts := h.parts hne hgap hgives (fun ks hks => (hundivided ks hks).1) hopen
    have hall : splitDefinitions ts = partsFrom 0 ts := by
      rw [splitDefinitions, List.filter_eq_self]
      intro part hmem
      obtain ⟨i, hi, rfl⟩ := List.mem_iff_getElem.1 hmem
      have hlen := hparts.length_eq
      obtain ⟨pre', hstands⟩ := hparts.get (by omega) hi
      have hgive := hgives.get (i := i) (by omega) (by rw [← hgives.length_eq]; omega)
      have hkinds := hstands.kinds hgive
      have hnonempty := (hundivided _ (List.get_mem kss ⟨i, by rw [← hgives.length_eq]; omega⟩)).2
      rw [← hkinds] at hnonempty
      simpa using hnonempty
    rw [hall]
    exact hparts

/-- **Definitions stand where their texts do.** -/
theorem Stands.definitions {texts : List (List Char)} {kss : List (List TokenKind)}
    (hgap : ∀ c ∈ gap, isBlank c) (hgives : List.Forall₂ (Gives d) texts kss)
    (hpart : ∀ ks ∈ kss, IsPart ks ∧ ks ≠ [])
    (h : Stands d source pre ((',' :: gap).intercalate texts) ts) :
    List.Forall₂ (StandsSomewhere d source) texts (splitDefinitions ts) := by
  refine h.groups hgap hgives (fun ks hks => ⟨(hpart ks hks).1.undivided.1, (hpart ks hks).2⟩) ?_
  exact fun ks hks => (hpart ks (List.dropLast_subset kss hks)).1.undivided.2

end Schemata.Sql
