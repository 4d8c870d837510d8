import Schemata.Proofs.Sql.Bodies
import Schemata.Proofs.Sql.Excerpts
import Schemata.Sql.Script

/-! # Splitting the body of a table

The tokens of a body are split into groups at the commas outside parentheses, whether the parentheses
are balanced or not: these groups are the only ones that are not empty, have no such comma inside and
make up the body again with commas put back (`splitsInto_iff`).  The texts of the groups are stable:
each of them is read as its group and split into itself alone, and joined with commas they are split
into the same texts again (`splitsStably_of_tokenize`). -/

namespace Schemata.Sql

open Schemata.Text

variable {d : Dialect} {source : List Char} {ts rest group tokens : List Token}
  {groups : List (List Token)} {comma : Token} {ks : List TokenKind}

/-! ### Groups -/

/-- The tokens of which groups are left when commas are dropped: those that follow a group in which
every opened parenthesis is closed, and those that follow no group. -/
inductive Rejoins : List (List Token) → List Token → Prop
  | none : Rejoins [] []
  | last (group : List Token) : Rejoins [group] group
  | comma {comma : Token} {ts : List Token} {groups : List (List Token)} (hcomma : comma.kind = .comma)
      (h : Rejoins groups ts) : Rejoins groups (comma :: ts)
  | next {group ts : List Token} {comma : Token} {groups : List (List Token)}
      (hclosed : openAfter 0 (group.map Token.kind) = 0) (hcomma : comma.kind = .comma)
      (h : Rejoins groups ts) : Rejoins (group :: groups) (group ++ comma :: ts)

/-- How tokens are split into groups. -/
structure SplitsInto (ts : List Token) (groups : List (List Token)) : Prop where
  nonempty : ∀ group ∈ groups, group ≠ []
  /-- No group has a comma outside the parentheses that are opened in it. -/
  undivided : ∀ group ∈ groups, Undivided 0 (group.map Token.kind)
  /-- Only commas are dropped. -/
  rejoins : Rejoins groups ts

theorem splitDefinitions_undivided (h : Undivided 0 (group.map Token.kind)) :
    splitDefinitions group = [group].filter (!·.isEmpty) := by
  have hparts := partsFrom_undivided [] h
  rw [List.append_nil] at hparts
  rw [splitDefinitions, hparts, partsFrom, beforeFirst, List.append_nil]

theorem splitDefinitions_comma (h : Undivided 0 (group.map Token.kind))
    (hclosed : openAfter 0 (group.map Token.kind) = 0) (hcomma : comma.kind = .comma) :
    splitDefinitions (group ++ comma :: rest) =
      [group].filter (!·.isEmpty) ++ splitDefinitions rest := by
  rw [splitDefinitions, partsFrom_undivided _ h, hclosed, partsFrom, if_pos ⟨hcomma, rfl⟩, beforeFirst,
    List.append_nil, ← List.singleton_append, List.filter_append]
  rfl

/-- What comes before the first comma outside parentheses, of which `n` are open before. -/
theorem exists_firstGroup (n : Nat) (ts : List Token) :
    ∃ group, Undivided n (group.map Token.kind) ∧
      (ts = group ∨ ∃ comma rest, ts = group ++ comma :: rest ∧ comma.kind = .comma ∧
        openAfter n (group.map Token.kind) = 0) := by
  induction ts generalizing n with
  | nil => exact ⟨[], undivided_nil, .inl rfl⟩
  | cons t ts ih =>
      by_cases hcomma : t.kind = .comma ∧ n = 0
      · obtain ⟨hkind, rfl⟩ := hcomma
        exact ⟨[], undivided_nil, .inr ⟨t, ts, rfl, hkind, rfl⟩⟩
      · obtain ⟨group, hgroup, hts⟩ := ih (openAfter n [t.kind])
        refine ⟨t :: group, undivided_cons.2 ⟨hcomma, hgroup⟩, ?_⟩
        rcases hts with rfl | ⟨comma, rest, rfl, hkind, hclosed⟩
        · exact .inl rfl
        · refine .inr ⟨comma, rest, rfl, hkind, ?_⟩
          rw [List.map_cons, openAfter_cons, hclosed]

/-- A group before others. -/
theorem SplitsInto.next (hgroup : Undivided 0 (group.map Token.kind))
    (hclosed : openAfter 0 (group.map Token.kind) = 0) (hcomma : comma.kind = .comma)
    (h : SplitsInto rest groups) :
    SplitsInto (group ++ comma :: rest) ([group].filter (!·.isEmpty) ++ groups) := by
  cases group with
  | nil => exact ⟨h.nonempty, h.undivided, h.rejoins.comma hcomma⟩
  | cons t group =>
      refine ⟨?_, ?_, h.rejoins.next hclosed hcomma⟩
      · exact List.forall_mem_cons.2 ⟨by simp, h.nonempty⟩
      · exact List.forall_mem_cons.2 ⟨hgroup, h.undivided⟩

theorem SplitsInto.last (hgroup : Undivided 0 (group.map Token.kind)) :
    SplitsInto group ([group].filter (!·.isEmpty)) := by
  cases group with
  | nil => exact ⟨by simp, by simp, .none⟩
  | cons t group => exact ⟨by simp, by simpa using hgroup, .last _⟩

theorem splitsInto_splitDefinitions (ts : List Token) : SplitsInto ts (splitDefinitions ts) := by
  induction hn : ts.length using Nat.strongRecOn generalizing ts with
  | _ n ih =>
    obtain ⟨group, hgroup, rfl | ⟨comma, rest, rfl, hcomma, hclosed⟩⟩ := exists_firstGroup 0 ts
    · rw [splitDefinitions_undivided hgroup]
      exact .last hgroup
    · rw [splitDefinitions_comma hgroup hclosed hcomma]
      exact .next hgroup hclosed hcomma (ih rest.length (by simp [← hn]; omega) rest rfl)

/-- **The groups are the only ones** that are not empty, keep together and leave out nothing but
commas. -/
theorem splitsInto_iff : SplitsInto ts groups ↔ groups = splitDefinitions ts := by
  constructor
  · rintro ⟨hnonempty, hundivided, hrejoins⟩
    have hkept : ∀ group ∈ groups, [group].filter (!·.isEmpty) = [group] := by
      intro group hgroup
      simpa using hnonempty group hgroup
    induction hrejoins with
    | none => rfl
    | last group =>
        rw [splitDefinitions_undivided (hundivided group (by simp)), hkept group (by simp)]
    | @comma comma ts groups hcomma h ih =>
        have hempty : splitDefinitions (comma :: ts) = splitDefinitions ts :=
          @splitDefinitions_comma ts [] comma undivided_nil rfl hcomma
        rw [hempty, ← ih hnonempty hundivided hkept]
    | @next group ts comma groups hclosed hcomma h ih =>
        obtain ⟨hgroup, hgroups⟩ := List.forall_mem_cons.1 hundivided
        rw [splitDefinitions_comma hgroup hclosed hcomma, hkept group (by simp),
          ← ih (List.forall_mem_cons.1 hnonempty).2 hgroups (List.forall_mem_cons.1 hkept).2]
        rfl
  · rintro rfl
    exact splitsInto_splitDefinitions ts

/-- Only in the last group a parenthesis can be left open. -/
theorem Rejoins.closed (h : Rejoins groups ts) :
    ∀ group ∈ groups.dropLast, openAfter 0 (group.map Token.kind) = 0 := by
  induction h with
  | none => simp
  | last => simp
  | comma _ _ ih => exact ih
  | @next group ts comma groups hclosed hcomma h ih =>
      cases groups with
      | nil => simp
      | cons other groups =>
          rw [List.dropLast_cons_cons]
          exact List.forall_mem_cons.2 ⟨hclosed, ih⟩

/-! ### Texts -/

/-- The texts of the definitions in a body that can be read. -/
theorem definitionTexts_eq_ok (h : tokenize (rulesOf d) source = .ok tokens) :
    definitionTexts (rulesOf d) source = .ok ((splitDefinitions tokens).map (sourceText source)) := by
  rw [definitionTexts, h]
  rfl

/-- How the texts of the groups of a body are read and split again. -/
structure SplitsStably (d : Dialect) (body : List Char) (groups : List (List Token)) : Prop where
  /-- There is one text for each group. -/
  texts : definitionTexts (rulesOf d) body = .ok (groups.map (sourceText body))
  /-- Each text is read as its group, but for the place where it stands, and split into itself. -/
  again : ∀ group ∈ groups, ∃ moved n,
    tokenize (rulesOf d) (sourceText body group).toList = .ok moved ∧
      moved.map (Token.shift n) = group ∧ splitDefinitions moved = [moved] ∧
      definitionTexts (rulesOf d) (sourceText body group).toList = .ok [sourceText body group]
  /-- The texts with commas between them are split into the same texts. -/
  joined : definitionTexts (rulesOf d) (", ".intercalate (groups.map (sourceText body))).toList =
    .ok (groups.map (sourceText body))

/-- The kinds of a group fill its text. -/
theorem fills_group (h : tokenize (rulesOf d) source = .ok tokens)
    (hgroup : group ∈ splitDefinitions tokens) :
    Fills d (sourceText source group).toList (group.map Token.kind) :=
  exists_fills h (infix_of_mem_splitDefinitions hgroup)
    ((splitsInto_splitDefinitions tokens).nonempty group hgroup)

/-- A text that one group fills is split into itself. -/
theorem definitionTexts_group {text : String} {moved : List Token} (h : Fills d text.toList ks)
    (hundivided : Undivided 0 ks) (hne : ks ≠ []) (hmoved : tokenize (rulesOf d) text.toList = .ok moved) :
    splitDefinitions moved = [moved] ∧ definitionTexts (rulesOf d) text.toList = .ok [text] := by
  have hstands := Stands.whole hmoved
  have hkinds : moved.map Token.kind = ks := hstands.kinds h.gives
  have hsplit : splitDefinitions moved = [moved] := by
    rw [splitDefinitions_undivided (by rw [hkinds]; exact hundivided)]
    rw [← hkinds] at hne
    simpa using hne
  refine ⟨hsplit, ?_⟩
  rw [definitionTexts_eq_ok hmoved, hsplit, List.map_singleton, hstands.sourceText_eq h,
    String.ofList_toList]

/-- Texts that groups fill are split again after they are joined. -/
theorem definitionTexts_joined {texts : List String} {kss : List (List TokenKind)}
    (hfills : List.Forall₂ (fun text ks => Fills d text.toList ks) texts kss)
    (hundivided : ∀ ks ∈ kss, Undivided 0 ks ∧ ks ≠ [])
    (hopen : ∀ ks ∈ kss.dropLast, openAfter 0 ks = 0) :
    definitionTexts (rulesOf d) (", ".intercalate texts).toList = .ok texts := by
  have hlist : (", ".intercalate texts).toList = [',', ' '].intercalate (texts.map String.toList) :=
    String.toList_intercalate
  have hgives : List.Forall₂ (Gives d) (texts.map String.toList) kss :=
    List.forall₂_map_left_iff.2 (hfills.imp fun _ _ h => h.gives)
  have hall : Gives d (", ".intercalate texts).toList ([.comma].intercalate kss) := by
    rw [hlist]
    exact gives_intercalate [',', ' '] [.comma] (by decide) (by simp)
      (fun h => (h.blank (by decide)).punct rfl) hgives
  obtain ⟨joined, hjoined, -⟩ := hall.tokenize
  have hstands := Stands.whole hjoined
  rw [hlist] at hstands
  have hblank : ∀ c ∈ [' '], isBlank c := by decide
  have hgroups := hstands.groups hblank hgives hundivided hopen
  have hfilled : ∀ text ∈ texts, ∃ ks, Fills d text.toList ks := by
    intro text htext
    obtain ⟨i, hi, rfl⟩ := List.mem_iff_getElem.1 htext
    exact ⟨_, hfills.get hi (hfills.length_eq ▸ hi)⟩
  have htexts := (List.forall₂_and_left _ _).2 ⟨hfilled, List.forall₂_map_left_iff.1 hgroups⟩
  have hsame : (splitDefinitions joined).map
      (sourceText ([',', ' '].intercalate (texts.map String.toList))) = texts.map id := by
    refine map_eq_of_forall₂ (htexts.flip.imp ?_)
    rintro group text ⟨⟨ks, hks⟩, pre, hplace⟩
    rw [hplace.sourceText_eq hks, String.ofList_toList, id]
  rw [definitionTexts_eq_ok hjoined, hlist, hsame, List.map_id]

/-- **Splitting is exact and stable** for every body that can be read. -/
theorem splitsStably_of_tokenize (h : tokenize (rulesOf d) source = .ok tokens) :
    SplitsInto tokens (splitDefinitions tokens) ∧ SplitsStably d source (splitDefinitions tokens) := by
  have hsplits := splitsInto_splitDefinitions tokens
  refine ⟨hsplits, definitionTexts_eq_ok h, ?_, ?_⟩
  · intro group hgroup
    have hne := hsplits.nonempty group hgroup
    have hfills := fills_group h hgroup
    obtain ⟨htext, moved, hmoved, hshift⟩ := tokenize_run h (infix_of_mem_splitDefinitions hgroup)
      (List.head?_eq_some_head hne) (List.getLast?_eq_some_getLast hne)
    have hagain : tokenize (rulesOf d) (sourceText source group).toList = .ok moved := by
      rw [htext, String.toList_ofList]
      exact hmoved
    exact ⟨moved, _, hagain, hshift,
      definitionTexts_group hfills (hsplits.undivided group hgroup) (by simpa using hne) hagain⟩
  · have hfills : List.Forall₂ (fun text ks => Fills d text.toList ks)
        ((splitDefinitions tokens).map (sourceText source))
        ((splitDefinitions tokens).map (·.map Token.kind)) := by
      rw [List.forall₂_map_left_iff, List.forall₂_map_right_iff, List.forall₂_same]
      exact fun group hgroup => fills_group h hgroup
    refine definitionTexts_joined hfills (List.forall_mem_map.2 fun group hgroup => ?_) ?_
    · exact ⟨hsplits.undivided group hgroup, by simpa using hsplits.nonempty group hgroup⟩
    · rw [← List.map_dropLast]
      exact List.forall_mem_map.2 hsplits.rejoins.closed

/-- A body with commas in strings and comments, with empty definitions, and with parentheses that have
no partner. -/
def strayBody : List Char := ") a, 'x, y' /* , */,, $$ , $$ -- ,\n, b (c, d".toList

theorem splitsStably_strayBody :
    ∃ tokens, tokenize (rulesOf .postgresql) strayBody = .ok tokens ∧
      SplitsInto tokens (splitDefinitions tokens) ∧
      SplitsStably .postgresql strayBody (splitDefinitions tokens) ∧
      (splitDefinitions tokens).map (sourceText strayBody) =
        [") a", "'x, y'", "$$ , $$", "b (c, d"] := by
  have htexts : definitionTexts (rulesOf .postgresql) strayBody =
      .ok [") a", "'x, y'", "$$ , $$", "b (c, d"] := by
    decide +kernel
  cases htokens : tokenize (rulesOf .postgresql) strayBody with
  | error e =>
      rw [definitionTexts, htokens] at htexts
      cases htexts
  | ok tokens =>
      obtain ⟨hsplits, hstably⟩ := splitsStably_of_tokenize htokens
      rw [definitionTexts_eq_ok htokens] at htexts
      exact ⟨tokens, rfl, hsplits, hstably, Except.ok.inj htexts⟩

end Schemata.Sql
