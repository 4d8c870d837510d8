import Schemata.Proofs.Sql.GuardedLexer
import Schemata.Proofs.Sql.Origins

/-! # Reading definitions by cuts

The readers of definitions again, as programs that reach the tokens of a part and the text of a source by
cuts only and give nothing where a cut is not possible.  Groups and parts are cut out of any tokens
(`parenGroup?_eq`, `splitDefinitions_eq`); texts are cut out of the source by tokens that stand in it in
order (`Placed`, `sourceText_eq`).  So a definition whose tokens are placed is read without failure
(`ofTokens_eq`). -/

namespace Schemata.Sql.Guarded

open Schemata.Text

variable {rules : Rules} {source : List Char} {t : Token} {ts us r : List Token}

/-! ### Groups of tokens -/

/-- The part from one place to another if it is not empty. -/
def cutPart (tokens : List Token) (start stop : Nat) : Option (List (List Token)) :=
  if start < stop then (cutList? tokens start stop).map ([·]) else some []

/-- The parts between commas outside parentheses that are not empty: those of the tokens `r` from place
`i` on, of which the first one starts at place `start`. -/
def partsFrom (tokens : List Token) (depth start i : Nat) : List Token → Option (List (List Token))
  | [] => cutPart tokens start tokens.length
  | t :: r =>
    if t.kind = .comma ∧ depth = 0 then do
      let part ← cutPart tokens start i
      let rest ← partsFrom tokens depth (i + 1) (i + 1) r
      some (part ++ rest)
    else partsFrom tokens (depthAfter depth t) start (i + 1) r

/-- The parts between commas outside parentheses that are not empty. -/
def splitDefinitions (tokens : List Token) : Option (List (List Token)) := partsFrom tokens 0 0 0 tokens

/-- The tokens between a parenthesis at the front and its partner, and those after it. -/
def parenGroup? (tokens : List Token) : Option (Option (List Token × List Token)) :=
  if tokens.head?.any (·.kind == .lparen) then
    match matchingParen tokens 0 with
    | some close => do
      let group ← cutList? tokens 1 close
      let rest ← cutList? tokens (close + 1) tokens.length
      some (some (group, rest))
    | none => (cutList? tokens 1 tokens.length).map fun group => some (group, [])
  else some none

/-- What follows a group in parentheses if there is one at the front. -/
def skipGroup (tokens : List Token) : Option (List Token) :=
  (parenGroup? tokens).map fun
    | some (_, rest) => rest
    | none => tokens

theorem cutPart_eq (before part r : List Token) :
    cutPart (before ++ (part ++ r)) before.length (before.length + part.length) =
      some ([part].filter (!·.isEmpty)) := by
  rw [cutPart, cutList?_append]
  cases part <;> simp

theorem partsFrom_eq (before part r : List Token) (depth : Nat) :
    partsFrom (before ++ (part ++ r)) depth before.length (before.length + part.length) r =
      some ((beforeFirst part (Sql.partsFrom depth r)).filter (!·.isEmpty)) := by
  induction r generalizing before part depth with
  | nil =>
      have hcut := cutPart_eq before part []
      have hall : (before ++ (part ++ [])).length = before.length + part.length := by simp
      rw [partsFrom, hall, hcut]
      simp [Sql.partsFrom, beforeFirst]
  | cons t r ih =>
      unfold partsFrom
      split
      · rename_i hcomma
        -- the next part starts after the comma
        have hrest := ih (before ++ (part ++ [t])) [] depth
        have hplace : (before ++ (part ++ [t])).length = before.length + part.length + 1 := by
          simp [Nat.add_assoc]
        have hsame : before ++ (part ++ [t]) ++ ([] ++ r) = before ++ (part ++ t :: r) := by simp
        obtain ⟨first, rest, hparts⟩ := List.exists_cons_of_ne_nil (partsFrom_ne_nil depth r)
        rw [hplace, hsame, List.length_nil, Nat.add_zero] at hrest
        have hfirst : beforeFirst part ([] :: first :: rest) = [part] ++ first :: rest := by
          simp [beforeFirst]
        rw [cutPart_eq, hrest, Sql.partsFrom, if_pos hcomma, hparts, hfirst, List.filter_append]
        rfl
      · rename_i hother
        have hpart := ih before (part ++ [t]) (depthAfter depth t)
        rw [partsFrom_cons hother, ← beforeFirst_append, ← hpart]
        simp [Nat.add_assoc]

theorem splitDefinitions_eq (tokens : List Token) :
    splitDefinitions tokens = some (Sql.splitDefinitions tokens) := by
  have hall := partsFrom_eq [] [] tokens 0
  obtain ⟨part, rest, hparts⟩ := List.exists_cons_of_ne_nil (partsFrom_ne_nil 0 tokens)
  rw [hparts] at hall
  rw [splitDefinitions, Sql.splitDefinitions, hparts]
  exact hall

/-- What a closed parenthesis at the front encloses can be cut out, and so can what follows. -/
theorem cutList?_group {close : Nat} (t : Token) (h : closingFrom 1 r = some close) :
    cutList? (t :: r) 1 (close + 1) = some (r.take close) ∧
      cutList? (t :: r) (close + 1 + 1) (t :: r).length = some (r.drop (close + 1)) := by
  have hlt : close < r.length := by
    obtain ⟨body, u, options, rfl, rfl, -, -⟩ := closingFrom_one_eq_some.1 h
    simp
  refine ⟨?_, cutList?_drop (by simp; omega)⟩
  rw [cutList?, if_pos ⟨Nat.le_add_left 1 close, by simp; omega⟩]
  simp

/-- A parenthesis is closed where the first one of what starts with it is. -/
theorem matchingParen_append {t : Token} (ht : t.kind = .lparen) (before r : List Token) :
    matchingParen (before ++ t :: r) before.length =
      (closingFrom 1 r).map fun close => before.length + (close + 1) := by
  rw [matchingParen, List.drop_left, closingFrom, ht, Option.map_map]
  exact congrArg (Option.map · _) (funext fun close => Nat.add_comm _ _)

theorem parenGroup?_eq (tokens : List Token) : parenGroup? tokens = some (Sql.parenGroup? tokens) := by
  cases tokens with
  | nil => rfl
  | cons t r =>
      by_cases ht : t.kind = .lparen
      · have hmatch : matchingParen (t :: r) 0 = (closingFrom 1 r).map (· + 1) := by
          simpa using matchingParen_append ht [] r
        cases hclose : closingFrom 1 r with
        | none => simp [parenGroup?, Sql.parenGroup?, ht, hmatch, hclose, cutList?]
        | some close =>
            obtain ⟨hgroup, hrest⟩ := cutList?_group t hclose
            simp only [parenGroup?, List.head?_cons, Option.any_some, ht, beq_self_eq_true, if_true, hmatch,
              hclose, Option.map_some, hgroup, hrest, Option.bind_eq_bind, Option.bind_some,
              Sql.parenGroup?]
      · simp [parenGroup?, Sql.parenGroup?, ht]

theorem skipGroup_eq (tokens : List Token) : skipGroup tokens = some (Sql.skipGroup tokens) := by
  rw [skipGroup, parenGroup?_eq, Sql.skipGroup]
  cases Sql.parenGroup? tokens <;> rfl

/-! ### Texts of tokens -/

/-- Tokens that stand in a source one after the other, at boundaries of characters. -/
structure Placed (source : List Char) (tokens : List Token) : Prop where
  boundaries : ∀ t ∈ tokens, IsBoundary source t.span.start ∧ IsBoundary source t.span.stop
  forward : ∀ t ∈ tokens, t.span.start ≤ t.span.stop
  ordered : tokens.Pairwise fun t u => t.span.stop ≤ u.span.start

theorem Placed.sublist (h : Placed source us) (hts : ts.Sublist us) : Placed source ts where
  boundaries t ht := h.boundaries t (hts.subset ht)
  forward t ht := h.forward t (hts.subset ht)
  ordered := h.ordered.sublist hts

theorem Placed.part {part : List Token} (h : Placed source ts) (hpart : part ∈ Sql.splitDefinitions ts) :
    Placed source part :=
  h.sublist (infix_of_mem_splitDefinitions hpart).sublist

/-- The tokens of a source are placed in it. -/
theorem placed_of_tokenize (h : Sql.tokenize rules source = .ok ts) : Placed source ts := by
  have hcovers : Covers rules 0 source ts := covers_of_tokensFrom h
  refine ⟨fun t ht => ?_, fun t ht => ?_, hcovers.pairwise⟩
  · obtain ⟨text, rest, hcuts, -⟩ := hcovers.exists_cuts t ht
    exact hcuts.isBoundary
  · obtain ⟨text, rest, hcuts, hlexes⟩ := hcovers.exists_cuts t ht
    exact Nat.le_of_lt (hcuts.start_lt_stop hlexes.head.1)

/-- Of placed tokens the first one starts before the last one stops. -/
theorem Placed.start_le_stop (h : Placed source ts) {first last : Token} (hfirst : ts.head? = some first)
    (hlast : ts.getLast? = some last) : first.span.start ≤ last.span.stop := by
  obtain ⟨r, rfl⟩ := List.head?_eq_some_iff.1 hfirst
  have hf := h.forward first (by simp)
  rcases List.mem_cons.1 (List.mem_of_getLast? hlast) with rfl | hmem
  · exact hf
  · have hl := h.forward last (by simp [hmem])
    have hle := (List.pairwise_cons.1 h.ordered).1 last hmem
    omega

/-- The text of the source from the start of the first token to the end of the last one. -/
def sourceText (source : List Char) (tokens : List Token) : Option String :=
  match tokens.head?, tokens.getLast? with
  | some first, some last =>
    (cut? source first.span.start last.span.stop).map fun text => String.ofList (trimmed text)
  | _, _ => some ""

/-- **The text of placed tokens can be cut out.** -/
theorem sourceText_eq (h : Placed source ts) : sourceText source ts = some (Sql.sourceText source ts) := by
  unfold sourceText Sql.sourceText
  cases hfirst : ts.head? with
  | none => rfl
  | some first =>
      cases hlast : ts.getLast? with
      | none => rfl
      | some last =>
          have hstart := (h.boundaries first (List.mem_of_head? hfirst)).1
          have hstop := (h.boundaries last (List.mem_of_getLast? hlast)).2
          dsimp only
          rw [cut?_eq_some hstart hstop (h.start_le_stop hfirst hlast)]
          rfl

/-! ### Attributes -/

/-- What follows the operand of a default. -/
def skipOperand : List Token → Option (List Token)
  | [] => some []
  | t :: r =>
    match t.kind with
    | .lparen => skipGroup (t :: r)
    | .word _ => if introducesLiteral t r then some r.tail else skipGroup (furtherNames r).2
    | _ => some r

/-- Skips the type of a cast. -/
def skipCastType (rules : Rules) (tokens : List Token) : Option (List Token) :=
  let afterNames :=
    match tokens with
    | [] => []
    | t :: r =>
      match t.ident? with
      | some name => if startsConstraint name then t :: r else skipTypeNames rules r
      | none => t :: r
  (skipGroup afterNames).map skipBrackets

theorem skipOperand_eq (tokens : List Token) : skipOperand tokens = some (Sql.skipOperand tokens) := by
  cases tokens with
  | nil => rfl
  | cons t r =>
      unfold skipOperand Sql.skipOperand
      dsimp only
      cases t.kind with
      | lparen => exact skipGroup_eq _
      | word text =>
          by_cases hliteral : introducesLiteral t r
          · simp [hliteral]
          · simp [hliteral, skipGroup_eq]
      | _ => rfl

theorem skipCastType_eq (rules : Rules) (tokens : List Token) :
    skipCastType rules tokens = some (Sql.skipCastType rules tokens) := by
  unfold skipCastType
  dsimp only
  rw [skipGroup_eq]
  rfl

/-- Skips casts, each of them `::` and a type. -/
def skipCasts (rules : Rules) (tokens : List Token) : Option (List Token) :=
  match tokens with
  | [] => some []
  | t :: r =>
    if t.kind = .doubleColon then
      match _h : skipCastType rules r with
      | none => none
      | some rest => skipCasts rules rest
    else some (t :: r)
termination_by tokens.length
decreasing_by
  obtain rfl := Option.some.inj ((skipCastType_eq rules r).symm.trans _h)
  exact Nat.lt_succ_of_le (skipCastType_suffix rules r).length_le

theorem skipCasts_eq (rules : Rules) (tokens : List Token) :
    skipCasts rules tokens = some (Sql.skipCasts rules tokens) := by
  fun_induction Sql.skipCasts rules tokens with
  | case1 => simp [skipCasts]
  | case2 t r ht ih =>
      rw [skipCasts, if_pos ht]
      split
      · rename_i hnone
        simp [skipCastType_eq] at hnone
      · rename_i rest hrest
        obtain rfl := Option.some.inj ((skipCastType_eq rules r).symm.trans hrest)
        exact ih
  | case3 t r ht => rw [skipCasts, if_neg ht]

/-- The text from the start of the token `first` to the end of the last token that was consumed, which is
the word before the tokens if none of them was. -/
def consumedText (source : List Char) (first word : Token) (tokens : List Token) (consumed : Nat) :
    Option String :=
  let stop := (word :: tokens)[consumed]?.elim first.span.start (·.span.stop)
  (cut? source first.span.start stop).map fun text => String.ofList (trimmed text)

/-- The attribute after the token `word`, which is `DEFAULT`: the text from its first token to the last
one that was consumed. -/
def defaultAttribute (rules : Rules) (source : List Char) (word : Token) (tokens : List Token) :
    Option (Attribute × List Token) :=
  match tokens.head?, skipSign tokens with
  | some first, t :: r => do
    let afterOperand ← skipOperand (t :: r)
    let rest ← skipCasts rules afterOperand
    if isNextValue (t :: r) then some (.nextValue, rest)
    else do
      let text ← consumedText source first word tokens (tokens.length - afterOperand.length)
      some (.defaultTo text, rest)
  | _, _ => some (.passedOver, [])

/-- The attribute after the word `GENERATED`. -/
def generatedAttribute (tokens : List Token) : Option (Attribute × List Token) :=
  let r₁ :=
    match afterWords ["always"] tokens with
    | some r => r
    | none => (afterWords ["by", "default"] tokens).getD tokens
  let r₂ := skipWord "as" r₁
  match afterWords ["identity"] r₂ with
  | some r => (skipGroup r).map fun rest => (.autoIncrement, rest)
  | none =>
    (skipGroup r₂).map fun r₃ =>
      (.dropped .generated, (afterWords ["stored"] r₃).getD (skipWord "virtual" r₃))

/-- The attribute after the word `ON`. -/
def onAttribute (tokens : List Token) : Option (Attribute × List Token) :=
  let r := (afterWords ["update"] tokens).getD (skipWord "delete" tokens)
  let action := if isUpdateValue tokens then .dropped .onUpdate else .passedOver
  if startsWithOneOf ["set", "no"] r then some (action, r.drop 2)
  else (skipGroup (r.drop 1)).map fun rest => (action, rest)

/-- The attribute that starts with `t`, and what follows it.  No cut is made for the other ones. -/
def readAttribute (rules : Rules) (source : List Char) (t : Token) (r : List Token) :
    Option (Attribute × List Token) :=
  match t.keyword? with
  | some "default" => defaultAttribute rules source t r
  | some "generated" => generatedAttribute r
  | some "as" => (skipGroup r).map fun rest => (.dropped .generated, rest)
  | some "references" =>
    (skipGroup ((qualifiedName? r).elim r (·.2))).map fun rest => (.dropped .references, rest)
  | some "on" => onAttribute r
  | some "check" => (skipGroup r).map fun rest => (.dropped .check, rest)
  | some _ => some (Sql.readAttribute rules source t r)
  | none => (parenGroup? (t :: r)).map fun group => (.passedOver, group.elim r (·.2))

/-- The text that was consumed can be cut out, as at least one token was. -/
theorem consumedText_eq {first : Token} (h : Placed source (ts ++ us)) (hfirst : ts.head? = some first)
    (word : Token) :
    consumedText source first word (ts ++ us) ts.length = some (Sql.sourceText source ts) := by
  have hts : ts ≠ [] := by
    rintro rfl
    simp at hfirst
  obtain ⟨init, last, rfl⟩ := (List.eq_nil_or_concat' ts).resolve_left hts
  have hlast : (word :: (init ++ [last] ++ us))[(init ++ [last]).length]? = some last := by simp
  rw [← sourceText_eq (h.sublist (List.sublist_append_left _ us)), consumedText, hlast, sourceText, hfirst,
    List.getLast?_concat]
  rfl

/-- What follows a default does not depend on the cut. -/
theorem snd_defaultAttribute {word : Token} {read : Attribute × List Token}
    (h : defaultAttribute rules source word ts = some read) :
    read.2 = (Sql.defaultAttribute rules source ts).2 := by
  unfold Sql.defaultAttribute
  cases ts with
  | nil => rw [← Option.some.inj h, skipSign]
  | cons first us =>
      rw [defaultAttribute, List.head?_cons] at h
      cases hsign : skipSign (first :: us) with
      | nil =>
          rw [hsign] at h
          rw [← Option.some.inj h]
      | cons t r =>
          simp only [hsign, skipOperand_eq, skipCasts_eq, Option.bind_eq_bind, Option.bind_some] at h
          by_cases hnext : isNextValue (t :: r)
          · rw [if_pos hnext] at h
            simp [hnext, ← Option.some.inj h]
          · rw [if_neg hnext] at h
            obtain ⟨text, -, he⟩ := Option.bind_eq_some_iff.1 h
            simp [hnext, ← Option.some.inj he]

theorem defaultAttribute_eq (rules : Rules) (h : Placed source ts) (word : Token) :
    defaultAttribute rules source word ts = some (Sql.defaultAttribute rules source ts) := by
  unfold defaultAttribute Sql.defaultAttribute
  cases ts with
  | nil => rfl
  | cons first us =>
      rw [List.head?_cons]
      cases hsign : skipSign (first :: us) with
      | nil => rfl
      | cons t r =>
          -- the operand takes at least one token
          have hread : t :: r <:+ first :: us := hsign ▸ skipSign_suffix (first :: us)
          obtain ⟨sign, hread⟩ := hread
          obtain ⟨operand, hoperand⟩ := skipOperand_cons_suffix t r
          have hall : first :: us = (sign ++ t :: operand) ++ Sql.skipOperand (t :: r) := by
            rw [← hread, List.append_assoc, List.cons_append, hoperand]
          have hfirst : (sign ++ t :: operand).head? = some first := by
            have := congrArg List.head? hall
            rw [List.head?_append_of_ne_nil _ (by simp)] at this
            exact this.symm
          have htext := consumedText_eq (hall ▸ h) hfirst word
          simp only [skipOperand_eq, skipCasts_eq, Option.bind_eq_bind, Option.bind_some]
          by_cases hnext : isNextValue (t :: r)
          · simp [hnext]
          · rw [if_neg hnext, if_neg hnext, hall, List.length_append, Nat.add_sub_cancel, htext,
              List.take_left]
            rfl

theorem generatedAttribute_eq (tokens : List Token) :
    generatedAttribute tokens = some (Sql.generatedAttribute tokens) := by
  unfold generatedAttribute Sql.generatedAttribute
  cases afterWords ["always"] tokens <;> dsimp only <;>
    generalize skipWord "as" _ = r <;> cases afterWords ["identity"] r <;> simp [skipGroup_eq]

theorem onAttribute_eq (tokens : List Token) :
    onAttribute tokens = some (Sql.onAttribute tokens) := by
  simp only [onAttribute, Sql.onAttribute, skipGroup_eq, Option.map_some]
  split <;> rfl

/-- An attribute apart from a default is read from any tokens. -/
theorem readAttribute_of_ne {t : Token} (ht : t.keyword? ≠ some "default") (r : List Token) :
    readAttribute rules source t r = some (Sql.readAttribute rules source t r) := by
  unfold readAttribute
  split
  · exact absurd ‹_› ht
  · rename_i hword
    simp only [Sql.readAttribute, hword, generatedAttribute_eq]
  · rename_i hword
    simp only [Sql.readAttribute, hword, skipGroup_eq, Option.map_some]
  · rename_i hword
    simp only [Sql.readAttribute, hword, skipGroup_eq, Option.map_some]
    cases qualifiedName? r <;> rfl
  · rename_i hword
    simp only [Sql.readAttribute, hword, onAttribute_eq]
  · rename_i hword
    simp only [Sql.readAttribute, hword, skipGroup_eq, Option.map_some]
  · rfl
  · rename_i hword
    simp only [Sql.readAttribute, hword, parenGroup?_eq, Option.map_some]
    cases Sql.parenGroup? (t :: r) <;> rfl

theorem readAttribute_eq (rules : Rules) (h : Placed source r) (t : Token) :
    readAttribute rules source t r = some (Sql.readAttribute rules source t r) := by
  by_cases ht : t.keyword? = some "default"
  · simp only [readAttribute, Sql.readAttribute, ht]
    exact defaultAttribute_eq rules h t
  · exact readAttribute_of_ne ht r

/-- What follows an attribute is an end of what was given. -/
theorem suffix_of_readAttribute {read : Attribute × List Token}
    (h : readAttribute rules source t r = some read) : read.2 <:+ r := by
  by_cases ht : t.keyword? = some "default"
  · simp only [readAttribute, ht] at h
    rw [snd_defaultAttribute h]
    exact defaultAttribute_suffix rules source r
  · rw [readAttribute_of_ne ht] at h
    rw [← Option.some.inj h]
    exact readAttribute_suffix rules source t r

/-- The attributes that a list of tokens spells. -/
def attributes (rules : Rules) (source : List Char) (tokens : List Token) : Option (List Attribute) :=
  match tokens with
  | [] => some []
  | t :: r =>
    match _h : readAttribute rules source t r with
    | none => none
    | some read => (attributes rules source read.2).map (read.1 :: ·)
termination_by tokens.length
decreasing_by exact Nat.lt_succ_of_le (suffix_of_readAttribute _h).length_le

theorem attributes_eq (rules : Rules) (h : Placed source ts) :
    attributes rules source ts = some (Sql.attributes rules source ts) := by
  fun_induction Sql.attributes rules source ts with
  | case1 => simp [attributes]
  | case2 t r read ih =>
      have hr := h.sublist (List.sublist_cons_self t r)
      have hread := readAttribute_eq rules hr t
      rw [attributes]
      split
      · simp_all
      · rename_i read' hread'
        obtain rfl : Sql.readAttribute rules source t r = read' := Option.some.inj (hread.symm.trans hread')
        rw [ih (hr.sublist (readAttribute_suffix rules source t r).sublist)]
        rfl

/-! ### Types -/

/-- Whether a parameter is one string. -/
def isMember (group : List Token) : Option Bool :=
  if group.length = 1 then group[0]?.map (·.string?.isSome) else some false

/-- A column with the type parameters between the given parentheses. -/
def withParameters (source : List Char) (params : List Token) (c : Column) : Option Column := do
  let groups ← splitDefinitions params
  let members ← groups.allM isMember
  if !groups.isEmpty && members then do
    let values ← groups.mapM fun group => group[0]?.map Token.string?
    some { c with members := values.filterMap id }
  else do
    let length ← groups[0]?.mapM (sourceText source)
    let precision ← groups[1]?.mapM (sourceText source)
    some { c with length, precision }

/-- A column of the given name and of the type at the front, and what follows the type. -/
def columnOfType? (rules : Rules) (source : List Char) (name : String) :
    List Token → Option (Option (Column × List Token))
  | [] => some none
  | t :: r =>
    match t.word? with
    | none => some none
    | some first =>
      if startsConstraint first then some none
      else do
        let (words, r₁) := typeWords rules r
        let (c, furtherWords, r₂) ←
          match ← parenGroup? r₁ with
          | some (params, r₂) => do
            let c ← withParameters source params { name, rawType := "" }
            let (furtherWords, r₃) := typeWords rules r₂
            some (c, furtherWords, r₃)
          | none => some ({ name, rawType := "" }, [], r₁)
        let (dimensions, rest) := arrayMarks r₂
        let base := SqlType.canonical (" ".intercalate (first :: words ++ furtherWords))
        some (some ({ c with rawType := base ++ String.join (List.replicate dimensions "[]") }, rest))

theorem isMember_eq (group : List Token) : isMember group = some (memberOf group).isSome := by
  match group with
  | [] => rfl
  | [t] => rfl
  | _ :: _ :: _ => rfl

theorem allM_isMember (groups : List (List Token)) :
    groups.allM isMember = some (groups.all (memberOf · |>.isSome)) := by
  induction groups with
  | nil => rfl
  | cons group groups ih =>
      rw [List.allM, isMember_eq, List.all_cons]
      cases (memberOf group).isSome
      · rfl
      · exact ih

theorem mapM_eq_some {α β : Type} {l : List α} {f : α → Option β} {g : α → β}
    (h : ∀ a ∈ l, f a = some (g a)) : l.mapM f = some (l.map g) := by
  induction l with
  | nil => rfl
  | cons a l ih =>
      rw [List.mapM_cons, h a (by simp), ih fun b hb => h b (by simp [hb])]
      rfl

/-- The texts of parameters are cut out where there are any. -/
theorem mapM_sourceText {groups : List (List Token)}
    (h : ∀ group ∈ groups, sourceText source group = some (Sql.sourceText source group)) (i : Nat) :
    groups[i]?.mapM (sourceText source) = some (groups[i]?.map (Sql.sourceText source)) := by
  cases hi : groups[i]? with
  | none => rfl
  | some group => simp [h group (List.mem_of_getElem? hi)]

theorem withParameters_eq (h : Placed source ts) (c : Column) :
    withParameters source ts c = some (Sql.withParameters source ts c) := by
  have hparts : ∀ part ∈ Sql.splitDefinitions ts, sourceText source part = some (Sql.sourceText source part) :=
    fun part hpart => sourceText_eq (h.part hpart)
  simp only [withParameters, Sql.withParameters, splitDefinitions_eq, allM_isMember, Option.bind_eq_bind,
    Option.bind_some]
  generalize Sql.splitDefinitions ts = groups at hparts
  split
  · rename_i hmembers
    obtain ⟨-, hall⟩ := (Bool.and_eq_true _ _).mp hmembers
    have hvalues : groups.mapM (fun group => group[0]?.map Token.string?) = some (groups.map memberOf) := by
      refine mapM_eq_some fun group hgroup => ?_
      have hone := List.all_eq_true.1 hall group hgroup
      match group with
      | [] => simp [memberOf] at hone
      | [t] => rfl
      | _ :: _ :: _ => simp [memberOf] at hone
    rw [hvalues]
    simp [List.filterMap_map]
  · simp only [mapM_sourceText hparts, Option.bind_some]

theorem columnOfType?_eq (rules : Rules) (h : Placed source ts) (name : String) :
    columnOfType? rules source name ts = some (Sql.columnOfType? rules source name ts) := by
  cases ts with
  | nil => rfl
  | cons t r =>
      unfold columnOfType? Sql.columnOfType?
      dsimp only
      cases t.word? with
      | none => rfl
      | some first =>
          dsimp only
          split
          · rfl
          · have hwords : Placed source (typeWords rules r).2 :=
              h.sublist ((typeWords_suffix rules r).sublist.trans (List.sublist_cons_self t r))
            simp only [parenGroup?_eq, Option.bind_eq_bind, Option.bind_some]
            cases hgroup : Sql.parenGroup? (typeWords rules r).2 with
            | none => rfl
            | some group =>
                have hparams := withParameters_eq (hwords.sublist (infix_of_parenGroup? hgroup).sublist)
                simp only [hparams, Option.bind_some]

/-! ### Definitions -/

/-- A column declaration. -/
def columnDefinition? (rules : Rules) (source : List Char) (tokens : List Token) :
    Option (Option Definition) :=
  match tokens with
  | [] => some none
  | t :: r =>
    match t.ident? with
    | none => some none
    | some name =>
      if name.isEmpty then some none
      else do
        match ← columnOfType? rules source name r with
        | none => some none
        | some (c, rest) => do
          let read ← attributes rules source rest
          let d := read.foldl Declaration.add { column := c }
          let c := Declaration.settle rules d.column
          some (some (.column c d.primary d.unique (d.notices ++ Declaration.typeNotices rules c)))

/-- The names listed in the first parentheses. -/
def keyNames? (tokens : List Token) : Option (Option (List String)) :=
  match tokens.findIdx? (·.kind == .lparen) with
  | none => some none
  | some opening => do
    let rest ← cutList? tokens opening tokens.length
    match ← parenGroup? rest with
    | none => some none
    | some (group, _) => do
      let parts ← splitDefinitions group
      match parts.filterMap (·.head?.bind Token.ident?) with
      | [] => some none
      | names => some (some names)

/-- A key with its names, or the notice that none are listed. -/
def keyed (key : List String → Definition) (what : SkippedDefinition) (text : String)
    (tokens : List Token) : Option Definition :=
  (keyNames? tokens).map fun
    | some names => key names
    | none => .skipped (.skipped what text)

/-- A constraint or an index of the table. -/
def tableConstraint (rules : Rules) (text : String) (tokens : List Token) : Option Definition :=
  match afterWords ["primary", "key"] tokens, afterWords ["unique"] tokens with
  | some rest, _ => keyed .primaryKey .primaryKey text rest
  | none, some rest => keyed .unique .unique text rest
  | none, none =>
    if startsIndex rules tokens then keyed .index .index text tokens
    else some (.skipped (.skipped .constraint text))

/-- What a definition declares. -/
def ofTokens (rules : Rules) (source : List Char) (tokens : List Token) : Option Definition := do
  let text ← sourceText source tokens
  match afterWords ["constraint"] tokens with
  | some r =>
    tableConstraint rules text (if startsWithOneOf constraintBodyWords r then r else r.drop 1)
  | none =>
    if startsTableConstraint rules tokens then tableConstraint rules text tokens
    else do
      let column ← columnDefinition? rules source tokens
      some (column.getD (.skipped (.skipped .column text)))

theorem columnDefinition?_eq (rules : Rules) (h : Placed source ts) :
    columnDefinition? rules source ts = some (Sql.columnDefinition? rules source ts) := by
  cases ts with
  | nil => rfl
  | cons t r =>
      have hr := h.sublist (List.sublist_cons_self t r)
      unfold columnDefinition? Sql.columnDefinition?
      dsimp only
      cases t.ident? with
      | none => rfl
      | some name =>
          dsimp only
          split
          · rfl
          · rw [columnOfType?_eq rules hr]
            cases htype : Sql.columnOfType? rules source name r with
            | none => rfl
            | some read =>
                obtain ⟨c, rest⟩ := read
                have hrest := hr.sublist (columnOfType?_cases htype).1.sublist
                simp only [Option.bind_eq_bind, Option.bind_some, attributes_eq rules hrest, Option.map_some]

/-- What starts with the first parenthesis can be cut out. -/
theorem findIdx?_lparen (tokens : List Token) :
    (tokens.findIdx? (·.kind == .lparen) = none ∧ tokens.dropWhile (·.kind ≠ .lparen) = []) ∨
      ∃ i, tokens.findIdx? (·.kind == .lparen) = some i ∧
        cutList? tokens i tokens.length = some (tokens.dropWhile (·.kind ≠ .lparen)) := by
  induction tokens with
  | nil => exact .inl ⟨rfl, rfl⟩
  | cons t r ih =>
      rw [List.findIdx?_cons]
      by_cases ht : t.kind = .lparen
      · refine .inr ⟨0, by simp [ht], ?_⟩
        rw [List.dropWhile_cons_of_neg (by simp [ht])]
        exact cutList?_drop (Nat.zero_le _)
      · rw [List.dropWhile_cons_of_pos (by simp [ht]), if_neg (by simpa using ht)]
        rcases ih with ⟨hnone, hdrop⟩ | ⟨i, hsome, hcut⟩
        · exact .inl ⟨by rw [hnone]; rfl, hdrop⟩
        · refine .inr ⟨i + 1, by rw [hsome]; rfl, ?_⟩
          rw [← hcut]
          simp [cutList?]

theorem keyNames?_eq (tokens : List Token) : keyNames? tokens = some (Sql.keyNames? tokens) := by
  unfold keyNames? Sql.keyNames?
  rcases findIdx?_lparen tokens with ⟨hnone, hdrop⟩ | ⟨i, hsome, hcut⟩
  · rw [hnone, hdrop]
    rfl
  · simp only [hsome, hcut, parenGroup?_eq, splitDefinitions_eq, Option.bind_eq_bind, Option.bind_some]
    cases Sql.parenGroup? (tokens.dropWhile (·.kind ≠ .lparen)) with
    | none => rfl
    | some group =>
        dsimp only
        cases (Sql.splitDefinitions group.1).filterMap (·.head?.bind Token.ident?) <;> rfl

theorem keyed_eq (key : List String → Definition) (what : SkippedDefinition) (text : String)
    (tokens : List Token) : keyed key what text tokens = some (Sql.keyed key what text tokens) := by
  rw [keyed, keyNames?_eq, Sql.keyed]
  cases Sql.keyNames? tokens <;> rfl

theorem tableConstraint_eq (rules : Rules) (text : String) (tokens : List Token) :
    tableConstraint rules text tokens = some (Sql.tableConstraint rules text tokens) := by
  unfold tableConstraint Sql.tableConstraint
  simp only [keyed_eq]
  cases afterWords ["primary", "key"] tokens with
  | some rest => rfl
  | none =>
      cases afterWords ["unique"] tokens with
      | some rest => rfl
      | none =>
          dsimp only
          split <;> rfl

/-- **A definition whose tokens are placed is read.** -/
theorem ofTokens_eq (rules : Rules) (h : Placed source ts) :
    ofTokens rules source ts = some (Definition.ofTokens rules source ts) := by
  simp only [ofTokens, Definition.ofTokens, sourceText_eq h, tableConstraint_eq, columnDefinition?_eq rules h,
    Option.bind_eq_bind, Option.bind_some]
  cases afterWords ["constraint"] ts with
  | some r => rfl
  | none =>
      dsimp only
      split <;> rfl

end Schemata.Sql.Guarded
