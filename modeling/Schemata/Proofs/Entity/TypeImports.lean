import Mathlib.Tactic.ByContra
import Schemata.Proofs.Entity.OneLine
import Schemata.Proofs.Entity.SourceNames

/-! # Imports of types

The imports of an entity are a sorted list in which each stands once (`mem_sortedSet`, `nodup_sortedSet`).
Where the types of a language need an import exactly when they mention a name (`Language.Brings`), the types
of the columns of a table do so as well, arrays included (`Language.Brings.mem_typeImports`). -/

namespace Schemata.Entity

variable {l : Language} {text entry name x : String} {texts : List String} {t : Table} {c : Column}

/-! ### Sorted lists -/

theorem mem_insertSorted : x ∈ insertSorted text texts ↔ x = text ∨ x ∈ texts := by
  induction texts with
  | nil => simp [insertSorted]
  | cons head rest ih =>
      rw [insertSorted]
      split_ifs with hlt heq
      · exact List.mem_cons
      · simp [heq]
      · simp only [List.mem_cons, ih]
        tauto

theorem mem_sortedSet : x ∈ sortedSet texts ↔ x ∈ texts := by
  induction texts with
  | nil => exact Iff.rfl
  | cons text texts ih =>
      have hset : sortedSet (text :: texts) = insertSorted text (sortedSet texts) := rfl
      rw [hset, mem_insertSorted, ih, List.mem_cons]

theorem pairwise_insertSorted (h : texts.Pairwise (· < ·)) : (insertSorted text texts).Pairwise (· < ·) := by
  induction texts with
  | nil => simp [insertSorted]
  | cons head rest ih =>
      obtain ⟨hhead, hrest⟩ := List.pairwise_cons.1 h
      rw [insertSorted]
      split_ifs with hlt heq
      · refine List.pairwise_cons.2 ⟨fun y hy => ?_, h⟩
        rcases List.mem_cons.1 hy with rfl | hy
        · exact hlt
        · exact String.lt_trans hlt (hhead y hy)
      · exact h
      · refine List.pairwise_cons.2 ⟨fun y hy => ?_, ih hrest⟩
        rcases mem_insertSorted.1 hy with rfl | hy
        · by_contra hnot
          exact heq (String.le_antisymm (String.not_lt.1 hnot) (String.not_lt.1 hlt))
        · exact hhead y hy

/-- A sorted set lists its texts in order, none of them twice. -/
theorem pairwise_sortedSet (texts : List String) : (sortedSet texts).Pairwise (· < ·) := by
  induction texts with
  | nil => exact .nil
  | cons text texts ih => exact pairwise_insertSorted ih

theorem nodup_sortedSet (texts : List String) : (sortedSet texts).Nodup := by
  refine (pairwise_sortedSet texts).imp fun hlt => ?_
  rintro rfl
  exact String.lt_irrefl _ hlt

/-! ### Types of a language -/

namespace Language

/-- The types of a language need an import exactly if they mention a name, arrays of them included. -/
structure Brings (l : Language) (entry name : String) : Prop where
  families : ∀ f, (l.ofFamily f).imports = some entry ↔ Mentions name (l.ofFamily f).name
  fallback : l.fallback.imports = some entry ↔ Mentions name l.fallback.name
  arrays : ∀ element, Mentions name (l.array element) ↔ l.arrayImport = some entry ∨ Mentions name element

theorem Brings.arrayOf (h : l.Brings entry name) (dimensions : Nat) (element : String) :
    Mentions name (l.arrayOf dimensions element) ↔
      (dimensions ≠ 0 ∧ l.arrayImport = some entry) ∨ Mentions name element := by
  induction dimensions with
  | zero => simp [Language.arrayOf]
  | succ dimensions ih =>
      rw [Language.arrayOf, h.arrays, ih]
      tauto

/-- The type of a column needs an import exactly if it mentions the name. -/
theorem Brings.mem_imports (h : l.Brings entry name) (c : Column) :
    entry ∈ (l.resolve c).imports ↔ Mentions name (l.resolve c).text := by
  have hbase := forall_base (P := fun type => type.imports = some entry ↔ Mentions name type.name)
    h.families h.fallback (SqlType.Family.ofColumn c)
  rw [resolve, h.arrayOf, ← hbase]
  split_ifs with hflat <;> simp [hflat, or_comm]

/-- The types of a table need an import exactly if one of them mentions the name. -/
theorem Brings.mem_typeImports (h : l.Brings entry name) (t : Table) :
    entry ∈ l.typeImports t ↔ ∃ c ∈ t.columns, Mentions name (l.resolve c).text := by
  simp only [typeImports, List.mem_flatMap, h.mem_imports]

/-- Nothing else is needed: the imports of types are those of the families, of the fallback and of arrays. -/
theorem typeImports_subset {entries : List String}
    (hfamilies : ∀ f, ∀ entry ∈ (l.ofFamily f).imports, entry ∈ entries)
    (hfallback : ∀ entry ∈ l.fallback.imports, entry ∈ entries)
    (harray : ∀ entry ∈ l.arrayImport, entry ∈ entries) (t : Table) : l.typeImports t ⊆ entries := by
  intro entry h
  obtain ⟨c, -, hc⟩ := List.mem_flatMap.1 h
  rw [resolve, List.mem_append, Option.mem_toList] at hc
  rcases hc with hbase | hdimensions
  · exact forall_base (P := fun type => entry ∈ type.imports → entry ∈ entries) (fun f => hfamilies f entry)
      (hfallback entry) (SqlType.Family.ofColumn c) hbase
  · split_ifs at hdimensions
    · simp at hdimensions
    · exact harray entry (Option.mem_toList.1 hdimensions)

end Language

end Schemata.Entity
