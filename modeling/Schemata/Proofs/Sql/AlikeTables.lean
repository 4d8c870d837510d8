import Mathlib.Data.List.Find
import Schemata.Proofs.Sql.Layout
import Schemata.Proofs.Sql.Likeness
import Schemata.Proofs.Sql.Origins
import Schemata.Proofs.Sql.Outline

/-! # Tables that are alike

Tokens that look alike declare tables that are alike: they are the same but for the texts that are cut
out of the sources, in parameters of types, defaults and warnings, and such a text is missing in the one
where it is missing in the other (`Alike.createTable`).  So scripts whose tokens look alike have tables
that are alike, or errors of the same kind (`alike_tablesOfTokens`), however they are laid out
(`parseAll_layout`). -/

namespace Schemata.Sql

open Schemata.Text

variable {rules : Rules} {s : Sources} {t u : Token} {ts us : List Token} {c c' : Column}

/-! ### Lists and options -/

section Relations

variable {α β γ δ : Type} {R : α → β → Prop} {S : γ → δ → Prop}

theorem isEmpty_of_forall₂ {l : List α} {l' : List β} (h : List.Forall₂ R l l') :
    l.isEmpty = l'.isEmpty := by
  cases h <;> rfl

/-- Lists are the same where a relation holds only between equals. -/
theorem eq_of_forall₂ {R : α → α → Prop} {l l' : List α} (h : List.Forall₂ R l l')
    (hR : ∀ a b, R a b → a = b) : l = l' := by
  rw [← List.forall₂_eq_eq_eq]
  exact h.imp hR

theorem filterMap_eq_of_forall₂ {l : List α} {l' : List β} {f : α → Option γ} {g : β → Option γ}
    (h : List.Forall₂ (fun a b => f a = g b) l l') : l.filterMap f = l'.filterMap g := by
  induction h with
  | nil => rfl
  | cons hab _ ih => rw [List.filterMap_cons, List.filterMap_cons, hab, ih]

theorem rel_getElem? {l : List α} {l' : List β} (h : List.Forall₂ R l l') (i : Nat) :
    Option.Rel R l[i]? l'[i]? := by
  induction h generalizing i with
  | nil => exact .none
  | cons hab _ ih =>
      cases i with
      | zero => exact .some hab
      | succ i => exact ih i

theorem rel_optionMap {o : Option α} {o' : Option β} {f : α → γ} {g : β → δ} (h : Option.Rel R o o')
    (hfg : ∀ a b, R a b → S (f a) (g b)) : Option.Rel S (o.map f) (o'.map g) := by
  cases h with
  | none => exact .none
  | some hab => exact .some (hfg _ _ hab)

end Relations

/-! ### Columns -/

/-- Columns that are the same up to the texts of defaults and parameters of types. -/
structure AlikeColumns (s : Sources) (c c' : Column) : Prop where
  outline : c.outline = c'.outline
  members : c.members = c'.members
  length : Option.Rel (SameText s) c.length c'.length
  precision : Option.Rel (SameText s) c.precision c'.precision
  defaultValue : Option.Rel (SameText s) c.defaultValue c'.defaultValue

namespace AlikeColumns

theorem name (h : AlikeColumns s c c') : c.name = c'.name :=
  (congrArg Column.name h.outline :)

/-- A column is alike to itself if its texts are the same. -/
theorem same (s : Sources) (c : Column) : AlikeColumns s c c := by
  have refl : ∀ o : Option String, Option.Rel (SameText s) o o := fun o => by
    cases o with
    | none => exact .none
    | some text => exact .some fun _ => rfl
  exact ⟨rfl, rfl, refl _, refl _, refl _⟩

theorem withType (h : AlikeColumns s c c') (rawType : String) :
    AlikeColumns s { c with rawType } { c' with rawType } := by
  refine ⟨?_, h.members, h.length, h.precision, h.defaultValue⟩
  exact (congrArg (fun o : Column => { o with rawType }) h.outline :)

theorem settle (rules : Rules) (h : AlikeColumns s c c') :
    AlikeColumns s (Declaration.settle rules c) (Declaration.settle rules c') := by
  have houtline : (Declaration.settle rules c).outline = (Declaration.settle rules c').outline := by
    rw [outline_settle, outline_settle, h.outline]
  have kept : ∀ {α : Type} {f : Column → α}, (∀ c : Column, f c.numbered = f c) →
      f (Declaration.settle rules c) = f c ∧ f (Declaration.settle rules c') = f c' :=
    fun hf => ⟨settle_keeps hf rules c, settle_keeps hf rules c'⟩
  obtain ⟨hm, hm'⟩ := kept (f := Column.members) fun _ => rfl
  obtain ⟨hl, hl'⟩ := kept (f := Column.length) fun _ => rfl
  obtain ⟨hp, hp'⟩ := kept (f := Column.precision) fun _ => rfl
  obtain ⟨hd, hd'⟩ := kept (f := Column.defaultValue) fun _ => rfl
  refine ⟨houtline, ?_, ?_, ?_, ?_⟩
  · rw [hm, hm', h.members]
  · rw [hl, hl']
    exact h.length
  · rw [hp, hp']
    exact h.precision
  · rw [hd, hd']
    exact h.defaultValue

end AlikeColumns

/-! ### Types -/

namespace Alike

theorem typeWords (rules : Rules) (h : Alike s ts us) :
    (typeWords rules ts).1 = (typeWords rules us).1 ∧
      Alike s (typeWords rules ts).2 (typeWords rules us).2 := by
  induction h with
  | nil => exact ⟨rfl, .nil⟩
  | @cons t u ts us hkind htouch htext h ih =>
      rw [Sql.typeWords, Sql.typeWords, word?_congr hkind]
      split
      · split
        · exact ⟨rfl, .cons hkind htouch htext h⟩
        · exact ⟨congrArg (List.cons _) ih.1, ih.2⟩
      · exact ⟨rfl, .cons hkind htouch htext h⟩

theorem arrayMarks (h : Alike s ts us) :
    (arrayMarks ts).1 = (arrayMarks us).1 ∧ Alike s (arrayMarks ts).2 (arrayMarks us).2 := by
  fun_induction Sql.arrayMarks ts generalizing us with
  | case1 =>
      cases h
      simpa [Sql.arrayMarks] using .nil
  | case2 t r ht n rest hread ih =>
      cases h with
      | @cons _ u _ us hkind _ _ h =>
          have hafter := (h.dropWhile (p := (decide <| ·.kind ≠ .rbracket)) fun hk => by rw [hk]).drop 1
          obtain ⟨hn, hrest⟩ := ih hafter
          rw [hread] at hn hrest
          rw [Sql.arrayMarks, if_pos (hkind ▸ ht)]
          exact ⟨congrArg (· + 1) hn, hrest⟩
  | case3 t r ht harray n rest hread ih =>
      cases h with
      | @cons _ u _ us hkind _ _ h =>
          obtain ⟨hn, hrest⟩ := ih h
          rw [hread] at hn hrest
          rw [Sql.arrayMarks, if_neg (hkind ▸ ht), if_pos (isKeyword_congr hkind _ ▸ harray)]
          exact ⟨congrArg (· + 1) hn, hrest⟩
  | case4 t r ht harray =>
      cases h with
      | @cons _ u _ us hkind htouch htext h =>
          rw [Sql.arrayMarks, if_neg (hkind ▸ ht), if_neg (isKeyword_congr hkind _ ▸ harray)]
          exact ⟨rfl, .cons hkind htouch htext h⟩

theorem memberOf (h : Alike s ts us) : memberOf ts = memberOf us := by
  cases h with
  | nil => rfl
  | cons hkind _ _ h =>
      cases h with
      | nil => exact string?_congr hkind
      | cons => rfl

/-- Parameters of types are the same members or the same up to texts. -/
theorem withParameters (h : Alike s ts us) (hc : AlikeColumns s c c') :
    AlikeColumns s (withParameters s.left ts c) (withParameters s.right us c') := by
  have hgroups := h.splitDefinitions
  have hmembers := hgroups.imp fun _ _ hg => hg.memberOf
  have hall : (Sql.splitDefinitions ts).all (Sql.memberOf · |>.isSome) =
      (Sql.splitDefinitions us).all (Sql.memberOf · |>.isSome) := by
    have := congrArg (·.all Option.isSome) (map_eq_of_forall₂ hmembers)
    simpa [List.all_map, Function.comp_def] using this
  have param : ∀ i : Nat,
      Option.Rel (SameText s) ((Sql.splitDefinitions ts)[i]?.map (Sql.sourceText s.left))
        ((Sql.splitDefinitions us)[i]?.map (Sql.sourceText s.right)) :=
    fun i => rel_optionMap (rel_getElem? hgroups i) fun _ _ hg => hg.sourceText
  unfold Sql.withParameters
  dsimp only
  rw [isEmpty_of_forall₂ hgroups, hall, filterMap_eq_of_forall₂ hmembers]
  split
  · exact ⟨hc.outline, rfl, hc.length, hc.precision, hc.defaultValue⟩
  · exact ⟨hc.outline, hc.members, param 0, param 1, hc.defaultValue⟩

theorem columnOfType? (rules : Rules) (h : Alike s ts us) (name : String) :
    (columnOfType? rules s.left name ts = none ∧ columnOfType? rules s.right name us = none) ∨
      ∃ c c' rest rest', columnOfType? rules s.left name ts = some (c, rest) ∧
        columnOfType? rules s.right name us = some (c', rest') ∧
        AlikeColumns s c c' ∧ Alike s rest rest' := by
  cases h with
  | nil => exact .inl ⟨rfl, rfl⟩
  | @cons t u ts us hkind _ _ h =>
      obtain ⟨hwords, hrest⟩ := h.typeWords rules
      rw [Sql.columnOfType?, Sql.columnOfType?, word?_congr hkind]
      cases u.word? with
      | none => exact .inl ⟨rfl, rfl⟩
      | some first =>
          dsimp only
          split
          · exact .inl ⟨rfl, rfl⟩
          · rw [hwords]
            rcases hrest.parenGroup? with ⟨he, he'⟩ | ⟨_, _, _, _, he, he', hgroup, hafter⟩
            · rw [he, he']
              obtain ⟨hmarks, hend⟩ := hrest.arrayMarks
              dsimp only
              rw [hmarks]
              exact .inr ⟨_, _, _, _, rfl, rfl, .same s _, hend⟩
            · obtain ⟨hfurther, hafter'⟩ := hafter.typeWords rules
              obtain ⟨hmarks, hend⟩ := hafter'.arrayMarks
              rw [he, he']
              dsimp only
              rw [hfurther, hmarks]
              exact .inr ⟨_, _, _, _, rfl, rfl, (hgroup.withParameters (.same s _)).withType _, hend⟩

end Alike

/-! ### Declarations -/

/-- Declarations that are the same up to texts of their columns. -/
structure AlikeDeclarations (s : Sources) (dec dec' : Declaration) : Prop where
  outline : dec.outline = dec'.outline
  column : AlikeColumns s dec.column dec'.column

theorem AlikeDeclarations.add {dec dec' : Declaration} {a a' : Attribute}
    (h : AlikeDeclarations s dec dec') (ha : AlikeAttributes s a a') :
    AlikeDeclarations s (dec.add a) (dec'.add a') := by
  obtain ⟨houtline, hc⟩ := h
  have hnew : (dec.add a).outline = (dec'.add a').outline := by
    rw [outline_add, outline_add, houtline]
    cases ha <;> rfl
  have hcolumn : (dec.add a).column.outline = (dec'.add a').column.outline :=
    congrArg Declaration.column hnew
  refine ⟨hnew, ?_⟩
  cases ha with
  | defaultTo htext => exact ⟨hcolumn, hc.members, hc.length, hc.precision, .some htext⟩
  | same =>
      cases a with
      | defaultTo text => exact ⟨hcolumn, hc.members, hc.length, hc.precision, .some fun _ => rfl⟩
      | nextValue => exact ⟨hcolumn, hc.members, hc.length, hc.precision, .none⟩
      | _ => exact ⟨hcolumn, hc.members, hc.length, hc.precision, hc.defaultValue⟩

/-! ### Definitions -/

/-- Definitions that are the same up to texts. -/
inductive AlikeDefinitions (s : Sources) : Definition → Definition → Prop
  | column {c c' : Column} (primary unique : Bool) (notices : List Notice) (h : AlikeColumns s c c') :
      AlikeDefinitions s (.column c primary unique notices) (.column c' primary unique notices)
  | skipped (what : SkippedDefinition) {x y : String} (h : SameText s x y) :
      AlikeDefinitions s (.skipped (.skipped what x)) (.skipped (.skipped what y))
  | same (definition : Definition) : AlikeDefinitions s definition definition

/-- Declarations that are alike define columns that are alike. -/
theorem AlikeDeclarations.define {dec dec' : Declaration} (h : AlikeDeclarations s dec dec') :
    AlikeDefinitions s
      (.column (Declaration.settle rules dec.column) dec.primary dec.unique
        (dec.notices ++ Declaration.typeNotices rules (Declaration.settle rules dec.column)))
      (.column (Declaration.settle rules dec'.column) dec'.primary dec'.unique
        (dec'.notices ++ Declaration.typeNotices rules (Declaration.settle rules dec'.column))) := by
  have hsettled := h.column.settle rules
  have hprimary : dec.primary = dec'.primary := (congrArg Declaration.primary h.outline :)
  have hunique : dec.unique = dec'.unique := (congrArg Declaration.unique h.outline :)
  have hnotices : dec.notices = dec'.notices := (congrArg Declaration.notices h.outline :)
  have htype : Declaration.typeNotices rules (Declaration.settle rules dec.column) =
      Declaration.typeNotices rules (Declaration.settle rules dec'.column) :=
    (congrArg (Declaration.typeNotices rules) hsettled.outline :)
  rw [hprimary, hunique, hnotices, htype]
  exact .column _ _ _ hsettled

namespace Alike

theorem columnDefinition? (rules : Rules) (h : Alike s ts us) :
    Option.Rel (AlikeDefinitions s) (columnDefinition? rules s.left ts)
      (columnDefinition? rules s.right us) := by
  cases h with
  | nil => exact .none
  | @cons t u ts us hkind _ _ h =>
      rw [Sql.columnDefinition?, Sql.columnDefinition?, ident?_congr hkind]
      cases u.ident? with
      | none => exact .none
      | some name =>
          dsimp only
          split
          · exact .none
          · rcases h.columnOfType? rules name with ⟨he, he'⟩ | ⟨c, c', rest, rest', he, he', hc, hrest⟩
            · rw [he, he']
              exact .none
            · rw [he, he']
              have hbase : AlikeDeclarations s { column := c } { column := c' } :=
                ⟨(congrArg (fun o : Column => ({ column := o } : Declaration)) hc.outline :), hc⟩
              have hall := List.rel_foldl (P := AlikeDeclarations s) (R := AlikeAttributes s)
                (fun _ _ hd _ _ ha => hd.add ha) hbase (hrest.attributes rules)
              exact .some hall.define

theorem keyNames? (h : Alike s ts us) : keyNames? ts = keyNames? us := by
  have hafter := h.dropWhile (p := (decide <| ·.kind ≠ .lparen)) fun hk => by rw [hk]
  unfold Sql.keyNames?
  rcases hafter.parenGroup? with ⟨he, he'⟩ | ⟨group, _, group', _, he, he', hgroup, -⟩
  · rw [he, he']
  · rw [he, he']
    have hnames := filterMap_eq_of_forall₂ (f := (·.head?.bind Token.ident?))
      (g := (·.head?.bind Token.ident?)) (hgroup.splitDefinitions.imp fun part part' hpart => by
        cases hpart with
        | nil => rfl
        | cons hkind => exact ident?_congr hkind)
    dsimp only
    rw [hnames]

theorem startsIndex (rules : Rules) (h : Alike s ts us) : startsIndex rules ts = startsIndex rules us := by
  rw [Sql.startsIndex, Sql.startsIndex, h.startsWithOneOf]

theorem keyed (h : Alike s ts us) (key : List String → Definition) (what : SkippedDefinition)
    {x y : String} (htext : SameText s x y) : AlikeDefinitions s (keyed key what x ts) (keyed key what y us) := by
  rw [Sql.keyed, Sql.keyed, h.keyNames?]
  split
  · exact .same _
  · exact .skipped what htext

theorem tableConstraint (rules : Rules) (h : Alike s ts us) {x y : String} (htext : SameText s x y) :
    AlikeDefinitions s (tableConstraint rules x ts) (tableConstraint rules y us) := by
  unfold Sql.tableConstraint
  rw [h.startsIndex rules]
  rcases h.afterWords ["primary", "key"] with ⟨he, he'⟩ | ⟨_, _, he, he', hrest⟩
  · rw [he, he']
    rcases h.afterWords ["unique"] with ⟨hu, hu'⟩ | ⟨_, _, hu, hu', hrest⟩
    · rw [hu, hu']
      dsimp only
      split
      · exact h.keyed _ _ htext
      · exact .skipped .constraint htext
    · rw [hu, hu']
      exact hrest.keyed _ _ htext
  · rw [he, he']
    exact hrest.keyed _ _ htext

theorem startsTableConstraint (rules : Rules) (h : Alike s ts us) :
    startsTableConstraint rules ts = startsTableConstraint rules us := by
  cases h with
  | nil => rfl
  | @cons t u ts us hkind htouch htext h =>
      have hall : Alike s (t :: ts) (u :: us) := .cons hkind htouch htext h
      have hparen : ts.head?.any (·.kind == .lparen) = us.head?.any (·.kind == .lparen) := by
        cases h with
        | nil => rfl
        | cons hkind => rw [List.head?_cons, List.head?_cons, Option.any_some, Option.any_some, hkind]
      rw [Sql.startsTableConstraint, Sql.startsTableConstraint, isOneOf_congr hkind, isOneOf_congr hkind,
        isKeyword_congr hkind, h.startsWithOneOf, h.startsWithOneOf, hparen, hall.startsIndex]

/-- **Definitions are read from tokens that look alike** as the same ones up to texts. -/
theorem definition (rules : Rules) (h : Alike s ts us) :
    AlikeDefinitions s (Definition.ofTokens rules s.left ts) (Definition.ofTokens rules s.right us) := by
  unfold Definition.ofTokens
  dsimp only
  rcases h.afterWords ["constraint"] with ⟨he, he'⟩ | ⟨rest, rest', he, he', hrest⟩
  · rw [he, he', h.startsTableConstraint rules]
    dsimp only
    split
    · exact h.tableConstraint rules h.sourceText
    · have hcolumn := h.columnDefinition? rules
      generalize Sql.columnDefinition? rules s.left ts = o,
        Sql.columnDefinition? rules s.right us = o' at hcolumn
      cases hcolumn with
      | none => exact .skipped .column h.sourceText
      | some hd => exact hd
  · rw [he, he']
    dsimp only
    rw [hrest.startsWithOneOf]
    split
    · exact hrest.tableConstraint rules h.sourceText
    · exact (hrest.drop 1).tableConstraint rules h.sourceText

end Alike

/-! ### Tables -/

/-- Tables that are the same up to the texts of their columns and of warnings. -/
structure AlikeTables (s : Sources) (a b : Table) : Prop where
  dialect : a.dialect = b.dialect
  name : a.name = b.name
  columns : List.Forall₂ (AlikeColumns s) a.columns b.columns
  primaryKeys : a.primaryKeys = b.primaryKeys
  uniqueKeys : a.uniqueKeys = b.uniqueKeys
  indexes : a.indexes = b.indexes
  tableComment : a.tableComment = b.tableComment
  columnComments : a.columnComments = b.columnComments
  warnings : List.Forall₂ (SameText s) a.warnings b.warnings

namespace AlikeTables

variable {a b : Table}

/-- A table is alike to itself. -/
theorem refl (s : Sources) (t : Table) : AlikeTables s t t :=
  ⟨rfl, rfl, List.forall₂_same.2 fun c _ => .same s c, rfl, rfl, rfl, rfl, rfl,
    List.forall₂_same.2 fun _ _ _ => rfl⟩

theorem columnNames (h : AlikeTables s a b) : a.columns.map (·.name) = b.columns.map (·.name) :=
  map_eq_of_forall₂ (h.columns.imp fun _ _ hc => hc.name)

theorem appendWarnings (h : AlikeTables s a b) {ws ws' : List String}
    (hws : List.Forall₂ (SameText s) ws ws') :
    AlikeTables s { a with warnings := a.warnings ++ ws } { b with warnings := b.warnings ++ ws' } :=
  { h with warnings := List.rel_append h.warnings hws }

theorem warned (h : AlikeTables s a b) (notice : Notice) :
    AlikeTables s (a.warned notice) (b.warned notice) :=
  h.appendWarnings (.cons (fun _ => rfl) .nil)

theorem add {definition definition' : Definition} (h : AlikeTables s a b)
    (hd : AlikeDefinitions s definition definition') :
    AlikeTables s (a.add definition) (b.add definition') := by
  have column : ∀ {c c' : Column} (primary unique : Bool) (notices : List Notice),
      AlikeColumns s c c' →
      AlikeTables s (a.add (.column c primary unique notices))
        (b.add (.column c' primary unique notices)) := by
    intro c c' primary unique notices hc
    refine ⟨h.dialect, h.name, ?_, ?_, ?_, h.indexes, h.tableComment, h.columnComments, ?_⟩
    · exact List.rel_append h.columns (.cons hc .nil)
    · simp only [Table.add, h.primaryKeys, hc.name]
    · simp only [Table.add, h.uniqueKeys, hc.name]
    · exact List.rel_append h.warnings (List.forall₂_same.2 fun _ _ _ => rfl)
  cases hd with
  | column primary unique notices hc => exact column primary unique notices hc
  | skipped what htext =>
      exact h.appendWarnings (.cons (fun he => by rw [htext he]) .nil)
  | same =>
      cases definition with
      | column c primary unique notices => exact column primary unique notices (.same s c)
      | primaryKey names => exact { h with primaryKeys := congrArg (· ++ names) h.primaryKeys }
      | unique names => exact { h with uniqueKeys := congrArg (· ++ [names]) h.uniqueKeys }
      | index names => exact { h with indexes := congrArg (· ++ [names]) h.indexes }
      | skipped notice => exact h.warned notice

theorem resolveNames (h : AlikeTables s a b) : AlikeTables s a.resolveNames b.resolveNames := by
  have hresolve := declaredName_congr h.columnNames
  refine ⟨h.dialect, h.name, h.columns, ?_, ?_, ?_, h.tableComment, h.columnComments, h.warnings⟩
  · simp only [Table.resolveNames, hresolve, h.primaryKeys]
  · simp only [Table.resolveNames, hresolve, h.uniqueKeys]
  · simp only [Table.resolveNames, hresolve, h.indexes]

/-- A comment is given to both tables or is missing its column in both. -/
theorem applyTo (h : AlikeTables s a b) (comment : Comment) :
    AlikeTables s (comment.applyTo a) (comment.applyTo b) := by
  unfold Comment.applyTo
  split
  · exact { h with tableComment := rfl }
  · rename_i table column _
    have hfind : (a.columns.find? fun c => sameWord c.name column).map (·.name) =
        (b.columns.find? fun c => sameWord c.name column).map (·.name) := by
      have := congrArg (List.find? (sameWord · column)) h.columnNames
      rwa [List.find?_map, List.find?_map] at this
    cases hc : a.columns.find? fun c => sameWord c.name column with
    | none =>
        rw [hc] at hfind
        rw [Option.map_eq_none_iff.1 hfind.symm]
        exact h.warned (.commentOnUnknownColumn table column)
    | some c =>
        rw [hc] at hfind
        obtain ⟨c', hc', hname⟩ := Option.map_eq_some_iff.1 hfind.symm
        rw [hc']
        dsimp only
        rw [hname, h.columnComments]
        exact { h with columnComments := rfl }

end AlikeTables

theorem Alike.tableOf (rules : Rules) (name : String) (h : Alike s ts us) :
    AlikeTables s (tableOf rules s.left name ts) (tableOf rules s.right name us) := by
  have hdefinitions : List.Forall₂ (AlikeDefinitions s)
      ((Sql.splitDefinitions ts).map (Definition.ofTokens rules s.left))
      ((Sql.splitDefinitions us).map (Definition.ofTokens rules s.right)) := by
    rw [List.forall₂_map_left_iff, List.forall₂_map_right_iff]
    exact h.splitDefinitions.imp fun _ _ hpart => hpart.definition rules
  have hall := (List.rel_foldl (P := AlikeTables s) (R := AlikeDefinitions s)
    (fun _ _ ht _ _ hd => ht.add hd) (.refl s { dialect := rules.dialect, name })
    hdefinitions).resolveNames
  unfold Sql.tableOf
  dsimp only
  rw [isEmpty_of_forall₂ hall.columns]
  split
  · exact hall.warned (.noColumns name)
  · exact hall

/-! ### Statements -/

/-- Readings that both succeed with related results or fail with the same fault. -/
inductive AlikeOutcomes {α : Type} (R : α → α → Prop) : Except ParseError α → Except ParseError α → Prop
  | ok {a b : α} (h : R a b) : AlikeOutcomes R (.ok a) (.ok b)
  | error {e e' : ParseError} (h : e.fault = e'.fault) : AlikeOutcomes R (.error e) (.error e')

namespace Alike

theorem skipEquals (h : Alike s ts us) : Alike s (skipEquals ts) (skipEquals us) := by
  cases h with
  | nil => exact .nil
  | @cons t u ts us hkind htouch htext h =>
      rw [Sql.skipEquals, Sql.skipEquals, hkind]
      split
      · exact h
      · exact .cons hkind htouch htext h

theorem head?_bind {α : Type} {f : Token → Option α} (h : Alike s ts us)
    (hf : ∀ {t u : Token}, t.kind = u.kind → f t = f u) : ts.head?.bind f = us.head?.bind f := by
  cases h with
  | nil => rfl
  | cons hkind => exact hf hkind

theorem optionComment (h : Alike s ts us) : optionComment ts = optionComment us := by
  fun_induction Sql.optionComment ts generalizing us with
  | case1 =>
      cases h
      simp [Sql.optionComment]
  | case2 t r ht =>
      rename_i ih
      cases h with
      | @cons _ u _ us hkind _ _ h =>
          have hvalue := h.skipEquals
          rw [Sql.optionComment, if_pos (isKeyword_congr hkind _ ▸ ht)]
          dsimp only
          rw [ih (hvalue.drop 1), hvalue.head?_bind string?_congr]
  | case3 t r ht ih =>
      cases h with
      | @cons _ u _ us hkind _ _ h =>
          rw [Sql.optionComment, if_neg (isKeyword_congr hkind _ ▸ ht)]
          exact ih h

theorem afterCreateTable (h : Alike s ts us) :
    (afterCreateTable ts = none ∧ afterCreateTable us = none) ∨ ∃ rest rest',
      afterCreateTable ts = some rest ∧ afterCreateTable us = some rest' ∧ Alike s rest rest' := by
  unfold Sql.afterCreateTable
  rcases h.afterWords ["create"] with ⟨he, he'⟩ | ⟨_, _, he, he', hrest⟩
  · rw [he, he']
    exact .inl ⟨rfl, rfl⟩
  · rw [he, he']
    exact (hrest.dropWhile fun hk => isOneOf_congr hk _).afterWords ["table"]

/-- **Statements that look alike create tables that are alike**, or are wrong in the same way. -/
theorem createTable (rules : Rules) {after after' : List Token} (statement statement' : List Token)
    (h : Alike s after after') :
    AlikeOutcomes (AlikeTables s) (createTable rules s.left statement after)
      (createTable rules s.right statement' after') := by
  have hheader := h.afterWords_getD ["if", "not", "exists"] h
  unfold Sql.createTable
  extract_lets header header'
  rcases hheader.qualifiedName? with ⟨he, he'⟩ | ⟨names, rest, rest', he, he', hrest⟩
  · rw [he, he']
    exact .error rfl
  · rw [he, he']
    dsimp only
    split
    · exact .error rfl
    · cases hrest with
      | nil => exact .error rfl
      | @cons t u ts us hkind _ _ h =>
          dsimp only
          rw [hkind, h.closingFrom]
          split
          · split
            · exact .error rfl
            · rename_i close _
              have hbody := (h.take close).tableOf rules (names.getLastD "")
              refine .ok { hbody with tableComment := ?_ }
              exact congrArg (·.getD "") (h.drop _).optionComment
          · exact .error rfl

theorem comment (h : Alike s ts us) : Comment.ofTokens? ts = Comment.ofTokens? us := by
  have text : ∀ {t u : Token}, t.kind = u.kind → commentText? t = commentText? u := by
    intro t u hkind
    rw [commentText?, commentText?, hkind, isKeyword_congr hkind]
  -- what follows the kind of the target
  have named : ∀ {ts us : List Token} (isTable : Bool), Alike s ts us →
      ((Sql.qualifiedName? ts).bind fun p => (Sql.afterWords ["is"] p.2).bind fun value =>
        (value.head?.bind commentText?).bind fun text =>
          (commentTarget? isTable p.1).bind fun target => some (Comment.mk target text)) =
      ((Sql.qualifiedName? us).bind fun p => (Sql.afterWords ["is"] p.2).bind fun value =>
        (value.head?.bind commentText?).bind fun text =>
          (commentTarget? isTable p.1).bind fun target => some (Comment.mk target text)) := by
    intro ts us isTable h
    rcases h.qualifiedName? with ⟨he, he'⟩ | ⟨names, _, _, he, he', hrest⟩
    · rw [he, he']
    · rw [he, he', Option.bind_some, Option.bind_some]
      rcases hrest.afterWords ["is"] with ⟨hi, hi'⟩ | ⟨_, _, hi, hi', hvalue⟩
      · rw [hi, hi']
      · rw [hi, hi', Option.bind_some, Option.bind_some, hvalue.head?_bind text]
  unfold Comment.ofTokens?
  simp only [bind, pure]
  rcases h.afterWords ["comment", "on"] with ⟨he, he'⟩ | ⟨_, _, he, he', hrest⟩
  · rw [he, he']
  · rw [he, he', Option.bind_some, Option.bind_some]
    rcases hrest.afterWords ["table"] with ⟨ht, ht'⟩ | ⟨_, _, ht, ht', hafter⟩
    · rw [ht, ht']
      rcases hrest.afterWords ["column"] with ⟨hc, hc'⟩ | ⟨_, _, hc, hc', hafter⟩
      · rw [hc, hc']
      · rw [hc, hc']
        exact named false hafter
    · rw [ht, ht']
      exact named true hafter

end Alike

/-! ### Scripts -/

variable {script script' : List (List Token)}

theorem alike_tablesOf (rules : Rules) (h : List.Forall₂ (Alike s) script script') :
    AlikeOutcomes (List.Forall₂ (AlikeTables s)) (tablesOf rules s.left script)
      (tablesOf rules s.right script') := by
  induction h with
  | nil => exact .ok .nil
  | @cons statement statement' script script' hst _ ih =>
      rw [tablesOf, tablesOf]
      rcases hst.afterCreateTable with ⟨he, he'⟩ | ⟨after, after', he, he', hafter⟩
      · rw [he, he']
        exact ih
      · rw [he, he']
        dsimp only
        have htable := hafter.createTable rules statement statement'
        generalize createTable rules s.left statement after = x,
          createTable rules s.right statement' after' = y at htable
        cases htable with
        | error hfault => exact .error hfault
        | ok ht =>
            generalize tablesOf rules s.left script = xs, tablesOf rules s.right script' = ys at ih
            cases ih with
            | error hfault => exact .error hfault
            | ok hrest => exact .ok (.cons ht hrest)

theorem alike_commentsOf (rules : Rules) (h : List.Forall₂ (Alike s) script script') :
    commentsOf rules script = commentsOf rules script' := by
  rw [commentsOf, commentsOf, filterMap_eq_of_forall₂ (h.imp fun _ _ hst => hst.comment)]

theorem alike_applyAmong (comment : Comment) {tables tables' : List Table}
    (h : List.Forall₂ (AlikeTables s) tables tables') :
    List.Forall₂ (AlikeTables s) (comment.applyAmong tables) (comment.applyAmong tables') := by
  have hindex : tables.findIdx? (fun t => sameWord t.name comment.target.tableName) =
      tables'.findIdx? (fun t => sameWord t.name comment.target.tableName) := by
    have hnames : tables.map (·.name) = tables'.map (·.name) :=
      map_eq_of_forall₂ (h.imp fun _ _ ht => ht.name)
    have := congrArg (List.findIdx? (sameWord · comment.target.tableName)) hnames
    rwa [List.findIdx?_map, List.findIdx?_map] at this
  unfold Comment.applyAmong
  dsimp only
  rw [hindex]
  split
  · exact forall₂_modify (fun _ _ ht => ht.applyTo comment) h _
  · exact forall₂_modify (fun _ _ ht => ht.warned (.commentOnUnknownTable _)) h 0

theorem alike_tablesOfTokens (rules : Rules) (h : Alike s ts us) :
    AlikeOutcomes (List.Forall₂ (AlikeTables s)) (tablesOfTokens rules s.left ts)
      (tablesOfTokens rules s.right us) := by
  have htables := alike_tablesOf rules h.statements
  unfold tablesOfTokens
  dsimp only
  rw [alike_commentsOf rules h.statements]
  generalize tablesOf rules s.left (statements ts) = x, tablesOf rules s.right (statements us) = y
    at htables
  cases htables with
  | error hfault => exact .error hfault
  | ok hall =>
      cases hall with
      | nil => exact .error rfl
      | cons ht hrest =>
          exact .ok (List.rel_foldl (P := List.Forall₂ (AlikeTables s)) (R := Eq)
            (fun _ _ hts c _ he => he ▸ alike_applyAmong c hts) (.cons ht hrest)
            (List.forall₂_refl _))

/-! ### Layout -/

variable {d : Dialect}

/-- Whether each token touches the next one. -/
def touching (ts : List Token) : List Bool :=
  List.zipWith (fun t u => t.span.stop == u.span.start) ts ts.tail

/-- Columns that are laid out differently: they agree in everything but the texts of their parameters
and defaults, which are there in both or in neither. -/
structure SameColumn (c c' : Column) : Prop where
  name : c.name = c'.name
  rawType : c.rawType = c'.rawType
  unsigned : c.unsigned = c'.unsigned
  notNull : c.notNull = c'.notNull
  autoIncrement : c.autoIncrement = c'.autoIncrement
  comment : c.comment = c'.comment
  members : c.members = c'.members
  length : c.length.isSome = c'.length.isSome
  precision : c.precision.isSome = c'.precision.isSome
  defaultValue : c.defaultValue.isSome = c'.defaultValue.isSome

/-- Tables that are laid out differently: they agree in everything but the texts of their columns and
of as many warnings. -/
structure SameTable (a b : Table) : Prop where
  dialect : a.dialect = b.dialect
  name : a.name = b.name
  columns : List.Forall₂ SameColumn a.columns b.columns
  primaryKeys : a.primaryKeys = b.primaryKeys
  uniqueKeys : a.uniqueKeys = b.uniqueKeys
  indexes : a.indexes = b.indexes
  tableComment : a.tableComment = b.tableComment
  columnComments : a.columnComments = b.columnComments
  warnings : a.warnings.length = b.warnings.length

theorem AlikeColumns.sameColumn (h : AlikeColumns s c c') : SameColumn c c' := by
  have isSome : ∀ {o o' : Option String}, Option.Rel (SameText s) o o' → o.isSome = o'.isSome := by
    intro o o' ho
    cases ho <;> rfl
  exact
    { name := h.name
      rawType := (congrArg Column.rawType h.outline :)
      unsigned := (congrArg Column.unsigned h.outline :)
      notNull := (congrArg Column.notNull h.outline :)
      autoIncrement := (congrArg Column.autoIncrement h.outline :)
      comment := (congrArg Column.comment h.outline :)
      members := h.members
      length := isSome h.length
      precision := isSome h.precision
      defaultValue := isSome h.defaultValue }

theorem AlikeTables.sameTable {a b : Table} (h : AlikeTables s a b) : SameTable a b :=
  ⟨h.dialect, h.name, h.columns.imp fun _ _ hc => hc.sameColumn, h.primaryKeys, h.uniqueKeys,
    h.indexes, h.tableComment, h.columnComments, h.warnings.length_eq⟩

theorem AlikeOutcomes.imp {α : Type} {R S : α → α → Prop} {x y : Except ParseError α}
    (h : AlikeOutcomes R x y) (hRS : ∀ a b, R a b → S a b) : AlikeOutcomes S x y := by
  cases h with
  | ok hab => exact .ok (hRS _ _ hab)
  | error hfault => exact .error hfault

/-- Tokens of the same kinds that touch in the same places look alike if texts do not matter. -/
theorem alike_of_touching (source source' : List Char) (hkinds : ts.map Token.kind = us.map Token.kind)
    (htouch : touching ts = touching us) : Alike ⟨source, source', False⟩ ts us := by
  induction ts generalizing us with
  | nil =>
      obtain rfl : us = [] := by simpa using hkinds.symm
      exact .nil
  | cons t ts ih =>
      obtain ⟨u, us, rfl, hkind, hrest⟩ := List.map_eq_cons_iff.1 hkinds.symm
      cases ts with
      | nil =>
          obtain rfl : us = [] := by simpa using hrest
          exact .cons hkind.symm (by simp) (fun _ hf => hf.elim) .nil
      | cons t' ts =>
          obtain ⟨u', us, rfl, -, -⟩ := List.map_eq_cons_iff.1 hrest
          obtain ⟨hfirst, hothers⟩ := List.cons.inj htouch
          refine .cons hkind.symm ?_ (fun _ hf => hf.elim) (ih hrest.symm hothers)
          intro t'' ht u'' hu
          obtain rfl : t' = t'' := Option.some.inj ht
          obtain rfl : u' = u'' := Option.some.inj hu
          rw [Bool.eq_iff_iff, beq_iff_eq, beq_iff_eq] at hfirst
          rw [eq_comm, hfirst, eq_comm]

/-- **How a script is laid out does not matter.**  Two scripts with tokens of the same kinds that touch in
the same places give the same tables up to texts that are cut out of them, or have the same fault. -/
theorem parseAll_layout {x y : String} (hx : tokenize (rulesOf d) x.toList = .ok ts)
    (hy : tokenize (rulesOf d) y.toList = .ok us) (hkinds : ts.map Token.kind = us.map Token.kind)
    (htouch : touching ts = touching us) :
    AlikeOutcomes (List.Forall₂ SameTable) (parseAll d x) (parseAll d y) := by
  have hall := alike_tablesOfTokens (rulesOf d) (alike_of_touching x.toList y.toList hkinds htouch)
  simp only [parseAll, hx, hy]
  exact hall.imp fun _ _ htables => htables.imp fun _ _ ht => ht.sameTable

/-- A script on one line. -/
def slotScript : String :=
  "CREATE TABLE slots (id bit DEFAULT b'1', size int DEFAULT (id + 1), CHECK (size <> id))"

/-- The same script with comments and more blanks. -/
def remarkedSlotScript : String :=
  "CREATE TABLE -- times\nslots (id bit\tDEFAULT b'1', # one\nsize int /* min */ DEFAULT (id  +  1),\n" ++
    "CHECK (size   <> id))"

theorem slots_layout :
    AlikeOutcomes (List.Forall₂ SameTable) (parseAll .mysql slotScript)
      (parseAll .mysql remarkedSlotScript) ∧
    parseAll .mysql slotScript ≠ parseAll .mysql remarkedSlotScript := by
  have hread : (tokenize (rulesOf .mysql) slotScript.toList).map
        (fun ts => (ts.map Token.kind, touching ts)) =
      (tokenize (rulesOf .mysql) remarkedSlotScript.toList).map
        (fun ts => (ts.map Token.kind, touching ts)) := by
    decide +kernel
  have hlength : (tokenize (rulesOf .mysql) slotScript.toList).map List.length = .ok 27 := by
    decide +kernel
  refine ⟨?_, by decide +kernel⟩
  obtain ⟨ts, hx, -⟩ := exists_of_map_eq_ok hlength
  rw [hx] at hread
  obtain ⟨us, hy, hsame⟩ := exists_of_map_eq_ok hread.symm
  obtain ⟨hkinds, htouch⟩ := Prod.mk.inj hsame
  exact parseAll_layout hx hy hkinds.symm htouch.symm

end Schemata.Sql
