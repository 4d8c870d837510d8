import Mathlib.Data.List.Nodup
import Schemata.Sql.Script

/-! # Comments that stand apart

Comments on the columns of a table are kept by name.  When the names of the columns differ even
without regard to case, comments on one table are found again under the columns that they are given
to (`foldl_applyTo_columns`, `lookup_foldl_putSorted`). -/

namespace Schemata

theorem lookup_entry (key value name : String) (entries : List (String × String)) :
    ((key, value) :: entries).lookup name = if name = key then some value else entries.lookup name := by
  rw [List.lookup_cons]
  by_cases h : name = key
  · simp [h]
  · simp [beq_eq_false_iff_ne.2 h, h]

theorem lookup_putSorted (key value name : String) (entries : List (String × String)) :
    (putSorted key value entries).lookup name =
      if name = key then some value else entries.lookup name := by
  induction entries with
  | nil => rw [putSorted, lookup_entry]
  | cons e entries ih =>
      obtain ⟨k, v⟩ := e
      rw [putSorted]
      split
      · rw [lookup_entry]
      · split
        · rename_i hk
          subst hk
          rw [lookup_entry, lookup_entry]
          split <;> rfl
        · rename_i hk
          rw [lookup_entry, ih, lookup_entry]
          by_cases h : name = k
          · rw [if_pos h, if_neg (fun he => hk (he.symm.trans h)), if_pos h]
          · rw [if_neg h, if_neg h]

/-- Entries of different keys are all found. -/
theorem lookup_foldl_putSorted {entries : List (String × String)} (h : (entries.map (·.1)).Nodup)
    (old : List (String × String)) (name : String) :
    (entries.foldl (fun es e => putSorted e.1 e.2 es) old).lookup name =
      (entries.lookup name).or (old.lookup name) := by
  induction entries generalizing old with
  | nil => rfl
  | cons e entries ih =>
      obtain ⟨key, value⟩ := e
      rw [List.map_cons, List.nodup_cons] at h
      rw [List.foldl_cons, ih h.2, lookup_putSorted, lookup_entry]
      by_cases he : name = key
      · have hnone : entries.lookup name = none := by
          rw [List.lookup_eq_none_iff]
          intro p hp
          have hmem : p.1 ∈ entries.map (·.1) := List.mem_map_of_mem hp
          have : name ≠ p.1 := by
            rintro rfl
            exact h.1 (he ▸ hmem)
          simpa using this
        rw [if_pos he, if_pos he, hnone]
        rfl
      · rw [if_neg he, if_neg he]

end Schemata

namespace Schemata.Sql

open Schemata.Text

variable {t : Table}

/-! ### Comments on one table -/

theorem sameWord_self (name : String) : sameWord name name := by
  simp [sameWord]

/-- A comment does not rename its table. -/
theorem name_applyTo (comment : Comment) (t : Table) : (comment.applyTo t).name = t.name := by
  unfold Comment.applyTo
  split
  · rfl
  · split <;> rfl

/-- Comments on the only table are applied to it. -/
theorem foldl_applyAmong {comments : List Comment}
    (h : ∀ comment ∈ comments, comment.target.tableName = t.name) :
    comments.foldl (fun ts c => c.applyAmong ts) [t] =
      [comments.foldl (fun t c => c.applyTo t) t] := by
  induction comments generalizing t with
  | nil => rfl
  | cons comment comments ih =>
      have hstep : comment.applyAmong [t] = [comment.applyTo t] := by
        have hsame : sameWord t.name comment.target.tableName := by
          rw [h comment (by simp)]
          exact sameWord_self _
        simp [Comment.applyAmong, List.findIdx?_cons, hsame]
      rw [List.foldl_cons, List.foldl_cons, hstep]
      exact ih fun c hc => (h c (by simp [hc])).trans (name_applyTo comment t).symm

theorem names_modify {f : Table → Table} (h : ∀ t, (f t).name = t.name) (i : Nat)
    (tables : List Table) : (tables.modify i f).map (·.name) = tables.map (·.name) := by
  induction tables generalizing i with
  | nil => rw [List.modify_nil]
  | cons t tables ih =>
      cases i with
      | zero => rw [List.modify_zero_cons, List.map_cons, List.map_cons, h]
      | succ i => rw [List.modify_succ_cons, List.map_cons, List.map_cons, ih]

/-- Comments rename no table. -/
theorem names_applyAmong (comments : List Comment) (tables : List Table) :
    (comments.foldl (fun ts c => c.applyAmong ts) tables).map (·.name) = tables.map (·.name) := by
  induction comments generalizing tables with
  | nil => rfl
  | cons comment comments ih =>
      rw [List.foldl_cons, ih]
      unfold Comment.applyAmong
      dsimp only
      split
      · exact names_modify (name_applyTo comment) _ tables
      · refine names_modify ?_ _ tables
        exact fun _ => rfl

/-- A name is found among names that differ without regard to case. -/
theorem find?_sameWord {columns : List Column} {name : String}
    (h : ((columns.map (·.name)).map asciiLower).Nodup) (hname : name ∈ columns.map (·.name)) :
    ∃ c, columns.find? (fun c => sameWord c.name name) = some c ∧ c.name = name := by
  obtain ⟨c, hc, rfl⟩ := List.mem_map.1 hname
  cases hfind : columns.find? (fun c' => sameWord c'.name c.name) with
  | none =>
      have := List.find?_eq_none.1 hfind c hc
      exact absurd (sameWord_self c.name) this
  | some c' =>
      have hsame : asciiLower c'.name = asciiLower c.name := by
        have := List.find?_some hfind
        simpa [sameWord] using this
      have hmem : c'.name ∈ columns.map (·.name) :=
        List.mem_map_of_mem (List.mem_of_find?_eq_some hfind)
      exact ⟨c', rfl, List.inj_on_of_nodup_map h hmem hname hsame⟩

/-- Comments on columns are kept by name. -/
theorem foldl_applyTo_columns (entries : List (String × String))
    (h : ((t.columns.map (·.name)).map asciiLower).Nodup)
    (hmem : ∀ e ∈ entries, e.1 ∈ t.columns.map (·.name)) :
    (entries.map fun e => Comment.mk (.column t.name e.1) (some e.2)).foldl
        (fun t c => c.applyTo t) t =
      { t with columnComments := entries.foldl (fun es e => putSorted e.1 e.2 es) t.columnComments } := by
  suffices hall : ∀ u : Table, u.columns = t.columns →
      (entries.map fun e => Comment.mk (.column t.name e.1) (some e.2)).foldl
          (fun t c => c.applyTo t) u =
        { u with columnComments := entries.foldl (fun es e => putSorted e.1 e.2 es) u.columnComments } from
    hall t rfl
  induction entries with
  | nil => exact fun u _ => rfl
  | cons e entries ih =>
      intro u hu
      obtain ⟨c, hc, hname⟩ := find?_sameWord h (hmem e (by simp))
      have hstep : (Comment.mk (.column t.name e.1) (some e.2)).applyTo u =
          { u with columnComments := putSorted e.1 e.2 u.columnComments } := by
        simp [Comment.applyTo, hu, hc, hname]
      rw [List.map_cons, List.foldl_cons, hstep, List.foldl_cons]
      exact ih (fun e he => hmem e (by simp [he])) _ hu

/-- What is said about columns is kept under some of their names. -/
theorem sublist_names (columns : List Column) (comment : Column → Option String) :
    ((columns.filterMap fun c => (comment c).map (c.name, ·)).map (·.1)).Sublist
      (columns.map (·.name)) := by
  induction columns with
  | nil => exact .slnil
  | cons c columns ih =>
      cases htext : comment c with
      | none =>
          rw [List.filterMap_cons_none (by simp [htext])]
          exact ih.cons _
      | some text =>
          rw [List.filterMap_cons_some (b := (c.name, text)) (by simp [htext])]
          exact ih.cons_cons _

/-- What is said about columns of different names is found under their names. -/
theorem lookup_filterMap {columns : List Column} (comment : Column → Option String)
    (h : (columns.map (·.name)).Nodup) {c : Column} (hc : c ∈ columns) :
    (columns.filterMap fun c => (comment c).map (c.name, ·)).lookup c.name = comment c := by
  have absent : ∀ {columns : List Column} {name : String}, name ∉ columns.map (·.name) →
      (columns.filterMap fun c => (comment c).map (c.name, ·)).lookup name = none := by
    intro columns name hname
    rw [List.lookup_eq_none_iff]
    intro e he
    obtain ⟨c, hc, hsome⟩ := List.mem_filterMap.1 he
    obtain ⟨text, -, rfl⟩ := Option.map_eq_some_iff.1 hsome
    have : name ≠ c.name := by
      rintro rfl
      exact hname (List.mem_map_of_mem hc)
    simpa using this
  induction columns with
  | nil => simp at hc
  | cons d columns ih =>
      rw [List.map_cons, List.nodup_cons] at h
      rcases List.mem_cons.1 hc with rfl | hc
      · cases htext : comment c with
        | none => rw [List.filterMap_cons_none (by simp [htext]), absent h.1]
        | some text =>
            rw [List.filterMap_cons_some (b := (c.name, text)) (by simp [htext]), lookup_entry,
              if_pos rfl]
      · have hne : c.name ≠ d.name := by
          intro he
          exact h.1 (he ▸ List.mem_map_of_mem hc)
        have := ih h.2 hc
        cases htext : comment d with
        | none => rwa [List.filterMap_cons_none (by simp [htext])]
        | some text =>
            rwa [List.filterMap_cons_some (b := (d.name, text)) (by simp [htext]), lookup_entry,
              if_neg hne]

end Schemata.Sql
