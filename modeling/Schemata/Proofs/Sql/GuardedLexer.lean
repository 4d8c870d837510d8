import Schemata.Proofs.Sql.GuardedCuts
import Schemata.Sql.ParseError

/-! # Reading tokens by cuts

The scanners again, as programs that hold a byte offset and see a source through cuts of it only.  They
give nothing where a cut is not possible.  Each of them gives what the scanner of the same name gives at an
offset from which the source can be cut, and the offset after what is read is another one
(`tokenize_eq`). -/

namespace Schemata.Sql.Guarded

open Schemata.Text

variable {rules : Rules} {source cs r : List Char} {c : Char} {pos : Nat}

/-! ### Runs of characters -/

/-- The offset after the characters that satisfy `p`. -/
def skipWhile (p : Char → Bool) (source : List Char) (pos : Nat) : Option Nat :=
  match _h : from? pos source with
  | none => none
  | some [] => some pos
  | some (c :: _) => if p c then skipWhile p source (pos + c.utf8Size) else some pos
termination_by byteLength source - pos
decreasing_by exact sub_next_lt _h

theorem skipWhile_eq (p : Char → Bool) (h : from? pos source = some cs) :
    skipWhile p source pos = some (pos + byteLength (cs.takeWhile p)) := by
  fun_induction skipWhile p source pos generalizing cs with
  | case1 pos hnone => simp [h] at hnone
  | case2 pos hempty =>
      obtain rfl := eq_of_from? h hempty
      rfl
  | case3 pos c r hcons hc ih =>
      obtain rfl := eq_of_from? h hcons
      rw [ih (from?_next h), List.takeWhile_cons_of_pos hc, byteLength_cons, Nat.add_assoc]
  | case4 pos c r hcons hc =>
      obtain rfl := eq_of_from? h hcons
      rw [List.takeWhile_cons_of_neg hc]
      rfl

/-! ### Comments -/

/-- The offset after a block comment that is open `outer + 1` times. -/
def skipBlock (nested : Bool) (source : List Char) (outer pos : Nat) : Option (Option Nat) :=
  match _h : from? pos source with
  | none => none
  | some [] => some none
  | some (c :: _) =>
    match from? (pos + c.utf8Size) source with
    | none => none
    | some next =>
      if c = '*' ∧ next.head? = some '/' then
        match outer with
        | 0 => some (some (pos + c.utf8Size + '/'.utf8Size))
        | n + 1 => skipBlock nested source n (pos + c.utf8Size + '/'.utf8Size)
      else if nested ∧ c = '/' ∧ next.head? = some '*' then
        skipBlock nested source (outer + 1) (pos + c.utf8Size + '*'.utf8Size)
      else skipBlock nested source outer (pos + c.utf8Size)
termination_by byteLength source - pos
decreasing_by
  · exact sub_lt_of_from? _h (by have := c.utf8Size_pos; omega)
  · exact sub_lt_of_from? _h (by have := c.utf8Size_pos; omega)
  · exact sub_next_lt _h

theorem skipBlock_eq (nested : Bool) (outer : Nat) (h : from? pos source = some cs) :
    skipBlock nested source outer pos =
      some ((scanBlock nested outer cs).map fun s => pos + byteLength s.text) := by
  fun_induction skipBlock nested source outer pos generalizing cs with
  | case1 outer pos hnone => simp [h] at hnone
  | case2 outer pos hempty =>
      obtain rfl := eq_of_from? h hempty
      rfl
  | case3 outer pos c r hcons hnone => simp [from?_next hcons] at hnone
  | case4 pos c r hcons next hnext hclose =>
      obtain rfl := eq_of_from? h hcons
      obtain rfl := eq_of_from? hnext (from?_next h)
      obtain ⟨r, rfl⟩ := List.head?_eq_some_iff.1 hclose.2
      simp [scanBlock, hclose.1, Nat.add_assoc]
  | case5 pos c r hcons next hnext hclose n ih =>
      obtain rfl := eq_of_from? h hcons
      obtain rfl := eq_of_from? hnext (from?_next h)
      obtain ⟨r, rfl⟩ := List.head?_eq_some_iff.1 hclose.2
      rw [ih (from?_next hnext)]
      simp [scanBlock, hclose.1, Scanned.after, Function.comp_def, Nat.add_assoc]
  | case6 outer pos c r hcons next hnext hclose hopen ih =>
      obtain rfl := eq_of_from? h hcons
      obtain rfl := eq_of_from? hnext (from?_next h)
      obtain ⟨hnested, hc, hhead⟩ := hopen
      obtain ⟨r, rfl⟩ := List.head?_eq_some_iff.1 hhead
      rw [ih (from?_next hnext)]
      simp [scanBlock, hc, hnested, Scanned.after, Function.comp_def, Nat.add_assoc]
  | case7 outer pos c r hcons next hnext hclose hopen ih =>
      obtain rfl := eq_of_from? h hcons
      obtain rfl := eq_of_from? hnext (from?_next h)
      rw [ih hnext]
      cases next with
      | nil => rfl
      | cons d r =>
          have hclose' : ¬(c = '*' ∧ d = '/') := by simpa using hclose
          have hopen' : ¬(nested ∧ c = '/' ∧ d = '*') := by simpa using hopen
          simp only [scanBlock, if_neg hclose', if_neg hopen']
          simp [Scanned.after, Function.comp_def, Nat.add_assoc]

/-- The offset after a comment, if there is one here. -/
def skipComment (rules : Rules) (source : List Char) (pos : Nat) (here : List Char) :
    Option (Except LexError (Option Nat)) :=
  if startsLineComment rules here then
    (skipWhile (· ≠ '\n') source pos).map fun stop => .ok (some stop)
  else if here.head? = some '/' ∧ here.tail.head? = some '*' then
    (skipBlock rules.nestedComments source 0 (pos + '/'.utf8Size + '*'.utf8Size)).map fun
      | some stop => .ok (some stop)
      | none => .error ⟨.openComment, pos⟩
  else some (.ok none)

theorem skipComment_eq (rules : Rules) (h : from? pos source = some cs) :
    skipComment rules source pos cs =
      some (match scanComment rules cs with
        | .ok read => .ok (read.map fun s => pos + byteLength s.text)
        | .error fault => .error ⟨fault, pos⟩) := by
  unfold skipComment
  by_cases hline : startsLineComment rules cs
  · have hscan : scanComment rules cs = .ok (some (scanLine cs)) := by
      unfold scanComment
      rw [if_pos hline]
    rw [if_pos hline, skipWhile_eq _ h, hscan]
    rfl
  · rw [if_neg hline]
    by_cases hopen : cs.head? = some '/' ∧ cs.tail.head? = some '*'
    · obtain ⟨r, rfl⟩ := List.head?_eq_some_iff.1 hopen.1
      obtain ⟨r, rfl⟩ := List.head?_eq_some_iff.1 hopen.2
      rw [if_pos hopen, skipBlock_eq _ 0 (from?_next (from?_next h)), scanComment, if_neg hline]
      cases scanBlock rules.nestedComments 0 r with
      | none => rfl
      | some s => simp [Scanned.after, Nat.add_assoc]
    · have hscan : scanComment rules cs = .ok none := by
        unfold scanComment
        rw [if_neg hline]
        split
        · exact absurd ⟨rfl, rfl⟩ hopen
        · rfl
      rw [if_neg hopen, hscan]
      rfl

/-- A comment is not empty. -/
theorem lt_of_skipComment {stop : Nat} (h : from? pos source = some cs)
    (hread : skipComment rules source pos cs = some (.ok (some stop))) : pos < stop := by
  rw [skipComment_eq rules h] at hread
  cases hscan : scanComment rules cs with
  | error fault => simp [hscan] at hread
  | ok read =>
      rw [hscan] at hread
      obtain ⟨s, hs, rfl⟩ : ∃ s, read = some s ∧ pos + byteLength s.text = stop := by
        simpa using hread
      subst hs
      have hpos : byteLength s.text ≠ 0 := mt eq_nil_of_byteLength (reads_scanComment hscan).1
      omega

/-- The offset after blanks and comments. -/
def skipGap (rules : Rules) (source : List Char) (pos : Nat) : Option (Except LexError Nat) :=
  match _h : from? pos source with
  | none => none
  | some [] => some (.ok pos)
  | some (c :: r) =>
    if isBlank c then skipGap rules source (pos + c.utf8Size)
    else
      match _hcomment : skipComment rules source pos (c :: r) with
      | none => none
      | some (.error e) => some (.error e)
      | some (.ok none) => some (.ok pos)
      | some (.ok (some stop)) => skipGap rules source stop
termination_by byteLength source - pos
decreasing_by
  · exact sub_next_lt _h
  · exact sub_lt_of_from? _h (lt_of_skipComment _h _hcomment)

theorem skipGap_eq (rules : Rules) (h : from? pos source = some cs) :
    skipGap rules source pos = some ((Sql.skipGap rules pos cs).map (·.1)) := by
  fun_induction skipGap rules source pos generalizing cs with
  | case1 pos hnone => simp [h] at hnone
  | case2 pos hempty =>
      obtain rfl := eq_of_from? h hempty
      rw [skipGap_nil]
      rfl
  | case3 pos c r hcons hc ih =>
      obtain rfl := eq_of_from? h hcons
      rw [ih (from?_next h), skipGap_blank hc]
  | case4 pos c r hcons hc hnone => simp [skipComment_eq rules hcons] at hnone
  | case5 pos c r hcons hc e hread =>
      obtain rfl := eq_of_from? h hcons
      rw [skipComment_eq rules h] at hread
      rw [Sql.skipGap, if_neg hc]
      split at hread
      · simp at hread
      · rename_i fault hscan
        split <;> simp_all [Except.map]
  | case6 pos c r hcons hc hread =>
      obtain rfl := eq_of_from? h hcons
      rw [skipComment_eq rules h] at hread
      have hscan : scanComment rules (c :: r) = .ok none := by
        cases hscan : scanComment rules (c :: r) <;> simp_all
      rw [skipGap_none (by simpa using hc) hscan]
      rfl
  | case7 pos c r hcons hc stop hread ih =>
      obtain rfl := eq_of_from? h hcons
      rw [skipComment_eq rules h] at hread
      obtain ⟨s, hscan, rfl⟩ : ∃ s, scanComment rules (c :: r) = .ok (some s) ∧
          pos + byteLength s.text = stop := by
        cases hscan : scanComment rules (c :: r) <;> simp_all
      rw [ih (from?_add ((reads_scanComment hscan).2 ▸ h)), skipGap_comment (by simpa using hc) hscan]

/-! ### Quoted texts -/

/-- The value of a quoted text after its opening quote, and the offset after its closing one. -/
def readQuoted (quote : Char) (unescape : Option (Char → Char)) (source : List Char) (pos : Nat) :
    Option (Option (List Char × Nat)) :=
  match _h : from? pos source with
  | none => none
  | some [] => some none
  | some (c :: _) =>
    match from? (pos + c.utf8Size) source with
    | none => none
    | some next =>
      if c = quote then
        if next.head? = some quote then
          (readQuoted quote unescape source (pos + c.utf8Size + quote.utf8Size)).map
            (·.map fun read => (c :: read.1, read.2))
        else some (some ([], pos + c.utf8Size))
      else
        match next.head?.bind (escaped unescape c), next.head? with
        | some e, some d =>
          (readQuoted quote unescape source (pos + c.utf8Size + d.utf8Size)).map
            (·.map fun read => (e :: read.1, read.2))
        | _, _ =>
          (readQuoted quote unescape source (pos + c.utf8Size)).map
            (·.map fun read => (c :: read.1, read.2))
termination_by byteLength source - pos
decreasing_by
  · exact sub_lt_of_from? _h (by have := c.utf8Size_pos; omega)
  · exact sub_lt_of_from? _h (by have := c.utf8Size_pos; omega)
  · exact sub_next_lt _h

theorem readQuoted_eq (quote : Char) (unescape : Option (Char → Char)) (h : from? pos source = some cs) :
    readQuoted quote unescape source pos =
      some ((scanQuoted quote unescape cs).map fun s => (s.value, pos + byteLength s.text)) := by
  fun_induction readQuoted quote unescape source pos generalizing cs with
  | case1 pos hnone => simp [h] at hnone
  | case2 pos hempty =>
      obtain rfl := eq_of_from? h hempty
      rfl
  | case3 pos c r hcons hnone => simp [from?_next hcons] at hnone
  | case4 pos r next hhead hcons hnext ih =>
      obtain rfl := eq_of_from? h hcons
      obtain rfl := eq_of_from? hnext (from?_next h)
      obtain ⟨r, rfl⟩ := List.head?_eq_some_iff.1 hhead
      rw [ih (from?_next hnext)]
      simp [scanQuoted, Scanned.after, Scanned.map, Function.comp_def, Nat.add_assoc]
  | case5 pos r next hhead hcons hnext =>
      obtain rfl := eq_of_from? h hcons
      obtain rfl := eq_of_from? hnext (from?_next h)
      cases next with
      | nil => simp [scanQuoted]
      | cons d r => simp_all [scanQuoted]
  | case6 pos c r hcons next hnext hquote e d hd he ih =>
      obtain rfl := eq_of_from? h hcons
      obtain rfl := eq_of_from? hnext (from?_next h)
      obtain ⟨r, rfl⟩ := List.head?_eq_some_iff.1 hd
      rw [List.head?_cons, Option.bind_some] at he
      rw [ih (from?_next hnext)]
      simp [scanQuoted, hquote, he, Scanned.after, Scanned.map, Function.comp_def, Nat.add_assoc]
  | case7 pos c r hcons next hnext hquote hplain ih =>
      obtain rfl := eq_of_from? h hcons
      obtain rfl := eq_of_from? hnext (from?_next h)
      rw [ih hnext]
      cases next with
      | nil => simp [scanQuoted, hquote]
      | cons d r =>
          have he : escaped unescape c d = none := by
            cases he : escaped unescape c d with
            | none => rfl
            | some e => exact absurd rfl (hplain e d he)
          simp [scanQuoted, hquote, he, Scanned.after, Scanned.map, Function.comp_def, Nat.add_assoc]

/-! ### Words and numbers -/

/-- The offset after a point and the digits after it, if there are any. -/
def skipFraction (source : List Char) (pos : Nat) : Option Nat := do
  let here ← from? pos source
  match here with
  | '.' :: d :: _ =>
    if d.isDigit then skipWhile Char.isDigit source (pos + '.'.utf8Size) else some pos
  | _ => some pos

/-- Whether digits follow the letter of an exponent, perhaps after a sign. -/
def exponentFollows : List Char → Bool
  | [] => false
  | s :: r => if s = '+' ∨ s = '-' then r.head?.any Char.isDigit else s.isDigit

/-- The offset after a sign, if there is one. -/
def skipNumberSign (source : List Char) (pos : Nat) : Option Nat := do
  let here ← from? pos source
  match here with
  | [] => some pos
  | s :: _ => if s = '+' ∨ s = '-' then some (pos + s.utf8Size) else some pos

/-- The offset after an exponent with at least one digit. -/
def skipExponent (source : List Char) (pos : Nat) : Option Nat := do
  let here ← from? pos source
  match here with
  | [] => some pos
  | e :: lookahead =>
    if (e = 'e' ∨ e = 'E') ∧ exponentFollows lookahead then do
      let digits ← skipNumberSign source (pos + e.utf8Size)
      skipWhile Char.isDigit source digits
    else some pos

/-- A number, cut out where it ends. -/
def number (source : List Char) (start : Nat) : Option (TokenKind × Nat) := do
  let whole ← skipWhile Char.isDigit source start
  let fraction ← skipFraction source whole
  let stop ← skipExponent source fraction
  let text ← cut? source start stop
  some (.number (String.ofList text), stop)

/-- A word, cut out where it ends. -/
def word (source : List Char) (start : Nat) : Option (TokenKind × Nat) := do
  let stop ← skipWhile isNameChar source start
  let text ← cut? source start stop
  some (.word (String.ofList text), stop)

theorem skipFraction_eq (h : from? pos source = some cs) :
    skipFraction source pos = some (pos + byteLength (scanFraction cs).1) := by
  rw [skipFraction, h]
  dsimp only [Option.bind_eq_bind, Option.bind_some]
  split
  · rename_i d r
    split
    · rename_i hd
      rw [skipWhile_eq _ (from?_next h)]
      simp [scanFraction, scanWhile, hd, Nat.add_assoc]
    · rename_i hd
      simp [scanFraction, hd]
  · rename_i hother
    have hnone : scanFraction cs = ([], cs) := by
      unfold scanFraction
      split
      · exact absurd rfl (hother _ _)
      · rfl
    rw [hnone]
    rfl

theorem skipNumberSign_cons {s : Char} (h : from? pos source = some (s :: r)) :
    skipNumberSign source pos = some (if s = '+' ∨ s = '-' then pos + s.utf8Size else pos) := by
  rw [skipNumberSign, h]
  dsimp only [Option.bind_eq_bind, Option.bind_some]
  split <;> rfl

theorem skipExponent_eq (h : from? pos source = some cs) :
    skipExponent source pos = some (pos + byteLength (scanExponent cs).1) := by
  rw [skipExponent, h]
  dsimp only [Option.bind_eq_bind, Option.bind_some]
  cases cs with
  | nil => rfl
  | cons e r =>
      by_cases he : e = 'e' ∨ e = 'E'
      · cases r with
        | nil => simp [exponentFollows, scanExponent]
        | cons s t =>
            have hsign := skipNumberSign_cons (from?_next h)
            by_cases hs : s = '+' ∨ s = '-'
            · have hdigit : s.isDigit = false := by rcases hs with rfl | rfl <;> rfl
              rw [if_pos hs] at hsign
              have hdigits := skipWhile_eq Char.isDigit (from?_next (from?_next h))
              by_cases ht : t.head?.any Char.isDigit
              · rw [Nat.add_assoc pos] at hsign hdigits
                simp [exponentFollows, scanExponent, he, hs, hdigit, ht, hsign, hdigits, scanWhile,
                  Nat.add_assoc]
              · simp [exponentFollows, scanExponent, he, hs, hdigit, ht]
            · rw [if_neg hs] at hsign
              by_cases hdigit : s.isDigit
              · simp [exponentFollows, scanExponent, he, hs, hdigit, hsign, scanWhile,
                  skipWhile_eq _ (from?_next h), Nat.add_assoc]
              · simp [exponentFollows, scanExponent, he, hs, hdigit]
      · simp [scanExponent, he]

theorem number_eq (h : from? pos source = some cs) :
    number source pos = some (.number (String.ofList (scanNumber cs).1),
      pos + byteLength (scanNumber cs).1) := by
  have hwhole := skipWhile_eq Char.isDigit h
  have hcut := cut?_of_from? ((append_scanNumber cs).symm ▸ h)
  rw [← List.takeWhile_append_dropWhile (p := Char.isDigit) (l := cs)] at h
  have hfraction := skipFraction_eq (from?_add h)
  have hafter := from?_add h
  rw [← append_scanFraction (cs.dropWhile Char.isDigit)] at hafter
  have hexponent := skipExponent_eq (from?_add hafter)
  have hstop : pos + byteLength (cs.takeWhile Char.isDigit) +
      byteLength (scanFraction (cs.dropWhile Char.isDigit)).1 +
        byteLength (scanExponent (scanFraction (cs.dropWhile Char.isDigit)).2).1 =
      pos + byteLength (scanNumber cs).1 := by
    simp [scanNumber, scanWhile, Nat.add_assoc]
  rw [hstop] at hexponent
  simp [number, hwhole, hfraction, hexponent, hcut]

theorem word_eq (h : from? pos source = some cs) :
    word source pos = some (.word (String.ofList (scanWhile isNameChar cs).1),
      pos + byteLength (scanWhile isNameChar cs).1) := by
  have hstop := skipWhile_eq isNameChar h
  rw [← List.takeWhile_append_dropWhile (p := isNameChar) (l := cs)] at h
  simp [word, hstop, cut?_of_from? h, scanWhile]

/-! ### Dollar-quoted strings -/

/-- The byte offset of the first occurrence of a mark in a text. -/
def find? (mark cs : List Char) : Option Nat := (breakOn mark cs).map fun parts => byteLength parts.1

/-- The value of a dollar-quoted string that starts at an offset, and the offset after it; nothing if no
mark starts there. -/
def readDollar (source : List Char) (start : Nat) :
    Option (Except LexError (Option (List Char × Nat))) := do
  let rest ← from? (start + 1) source
  match find? ['$'] rest with
  | none => some (.ok none)
  | some length =>
    let inner ← cut? rest 0 length
    if isDollarTag inner then do
      let mark ← cut? source start (start + length + 2)
      let body := start + byteLength mark
      let afterMark ← from? body source
      match find? mark afterMark with
      | none => some (.error ⟨.openDollarString, start⟩)
      | some length => do
        let value ← cut? source body (body + length)
        some (.ok (some (value, body + length + byteLength mark)))
    else some (.ok none)

theorem breakOn_dollar {tag : List Char} (h : '$' ∉ tag) (body : List Char) :
    breakOn ['$'] (tag ++ '$' :: body) = some (tag, '$' :: body) := by
  induction tag with
  | nil => simp [breakOn]
  | cons c tag ih =>
      obtain ⟨hc, htag⟩ := not_or.1 (mt List.mem_cons.2 h)
      simp [breakOn, hc, ih htag]

theorem breakOn_dollar_of_notMem {cs : List Char} (h : '$' ∉ cs) : breakOn ['$'] cs = none := by
  induction cs with
  | nil => rfl
  | cons c cs ih =>
      obtain ⟨hc, hcs⟩ := not_or.1 (mt List.mem_cons.2 h)
      simp [breakOn, hc, ih hcs]

/-- A mark is looked for after the next byte, so that what is longer than a byte cannot stand there. -/
example : readDollar ['é'] 0 = none := by decide

theorem readDollar_eq (h : from? pos source = some ('$' :: r)) :
    readDollar source pos =
      some (match scanDollar r with
        | .ok read => .ok (read.map fun s => (s.value, pos + '$'.utf8Size + byteLength s.text))
        | .error fault => .error ⟨fault, pos⟩) := by
  have hrest : from? (pos + 1) source = some r := from?_next h
  by_cases hd : '$' ∈ r
  · obtain ⟨tag, body, rfl, htag⟩ := split_at_dollar hd
    have hinner : cut? (tag ++ '$' :: body) 0 (byteLength tag) = some tag :=
      cut?_eq_some_iff.2 ⟨[], '$' :: body, rfl, rfl, by simp⟩
    have hfind : find? ['$'] (tag ++ '$' :: body) = some (byteLength tag) := by
      rw [find?, breakOn_dollar htag]
      rfl
    have hmarked : from? pos source = some (dollarMark tag ++ body) := by
      rw [h, dollarMark]
      simp
    have hlength : byteLength (dollarMark tag) = byteLength tag + 2 := by
      have hdollar : '$'.utf8Size = 1 := rfl
      simp only [dollarMark, List.cons_append, byteLength_cons, byteLength_append, byteLength_nil]
      omega
    have hmark := cut?_of_from? hmarked
    have hbody := from?_add hmarked
    rw [hlength] at hmark hbody
    rw [scanDollar_tag htag]
    simp only [readDollar, hrest, hfind, hinner, Option.bind_eq_bind, Option.bind_some]
    split
    · rw [Nat.add_assoc, hmark]
      simp only [Option.bind_some, hlength, hbody]
      cases hbreak : breakOn (dollarMark tag) body with
      | none => simp [find?, hbreak]
      | some parts =>
          obtain ⟨value, rest⟩ := parts
          obtain ⟨rfl, -⟩ := breakOn_append hbreak
          have hstop : pos + '$'.utf8Size +
              byteLength (tag ++ '$' :: value ++ dollarMark tag) =
                pos + (byteLength tag + 2) + byteLength value + (byteLength tag + 2) := by
            have hdollar : '$'.utf8Size = 1 := rfl
            simp only [byteLength_append, byteLength_cons, hlength]
            omega
          simp only [find?, hbreak, cut?_of_from? hbody, Option.map_some, Option.bind_some, hstop]
    · rfl
  · have hnone : find? ['$'] r = none := by
      rw [find?, breakOn_dollar_of_notMem hd]
      rfl
    rw [scanDollar_of_notMem hd]
    simp [readDollar, hrest, hnone]

/-! ### Tokens -/

/-- A token read after an opening text, which fails where it is not closed. -/
def quoted (source : List Char) (offset opened : Nat) (fault : LexFault) (kind : String → TokenKind)
    (quote : Char) (unescape : Option (Char → Char)) : Option (Except LexError (TokenKind × Nat)) :=
  (readQuoted quote unescape source opened).map fun
    | some (value, stop) => .ok (kind (String.ofList value), stop)
    | none => .error ⟨fault, offset⟩

/-- A word, or a number, or a single symbol. -/
def plain (source : List Char) (start : Nat) (c : Char) (r : List Char) : Option (TokenKind × Nat) :=
  if c.isDigit || (c == '.' && r.head?.any Char.isDigit) then number source start
  else if c = '.' then some (.dot, start + c.utf8Size)
  else if startsName c then word source start
  else some (.symbol c, start + c.utf8Size)

/-- The token that starts at an offset with `c`, and the offset after it. -/
def token (rules : Rules) (source : List Char) (start : Nat) (c : Char) (r : List Char) :
    Option (Except LexError (TokenKind × Nat)) :=
  let next := start + c.utf8Size
  match punctuation.lookup c with
  | some kind => some (.ok (kind, next))
  | none =>
    if c = ':' ∧ r.head? = some ':' then some (.ok (.doubleColon, next + ':'.utf8Size))
    else if c = '\'' then
      quoted source start next .openString .stringLit '\''
        (if rules.backslashEscapes then some unescapeChar else none)
    else if c = '$' ∧ rules.dollarQuotes then
      (readDollar source start).map fun
        | .ok (some (value, stop)) => .ok (.stringLit (String.ofList value), stop)
        | .ok none => .ok (.symbol c, next)
        | .error e => .error e
    else if rules.isIdentifierQuote c then
      quoted source start next .openIdentifier (.quotedIdent · c) c none
    else if rules.escapeLiterals ∧ (c = 'e' ∨ c = 'E') ∧ r.head? = some '\'' then
      quoted source next (next + '\''.utf8Size) .openString .stringLit '\'' (some unescapeChar)
    else (plain source start c r).map .ok

/-- What a guarded reader gives for what a scanner reads at an offset. -/
def readAt (pos : Nat) (s : Scanned TokenKind) : TokenKind × Nat := (s.value, pos + byteLength s.text)

theorem quoted_eq {opening : List Char} {offset opened : Nat} (fault : LexFault)
    (kind : String → TokenKind) (quote : Char) (unescape : Option (Char → Char))
    (h : from? opened source = some r) (hopened : opened = pos + byteLength opening) :
    quoted source offset opened fault kind quote unescape =
      some ((quotedToken opening fault offset kind (scanQuoted quote unescape r)).map (readAt pos)) := by
  rw [quoted, readQuoted_eq quote unescape h, hopened]
  cases scanQuoted quote unescape r with
  | none => rfl
  | some s => simp [quotedToken, readAt, Except.map, Scanned.map, Scanned.after, Nat.add_assoc]

theorem plain_eq (h : from? pos source = some (c :: r)) :
    plain source pos c r = some (readAt pos (scanPlain c r)) := by
  unfold plain scanPlain
  split
  · exact number_eq h
  · split
    · rfl
    · split
      · exact word_eq h
      · rfl

theorem token_eq (rules : Rules) (h : from? pos source = some (c :: r)) :
    token rules source pos c r = some ((scanToken rules pos c r).map (readAt pos)) := by
  have hnext := from?_next h
  unfold token scanToken
  cases punctuation.lookup c with
  | some kind => rfl
  | none =>
      dsimp only
      split
      · simp [readAt, Except.map, Nat.add_assoc]
      · split
        · exact quoted_eq _ _ _ _ hnext rfl
        · split
          · rename_i hdollar
            obtain ⟨rfl, -⟩ := hdollar
            rw [readDollar_eq h]
            cases scanDollar r with
            | error fault => rfl
            | ok read =>
                cases read with
                | none => rfl
                | some s => simp [readAt, Except.map, Scanned.map, Scanned.after, Nat.add_assoc]
          · split
            · exact quoted_eq _ _ _ _ hnext rfl
            · split
              · rename_i hescape
                obtain ⟨-, hletter, hhead⟩ := hescape
                obtain ⟨t, rfl⟩ := List.head?_eq_some_iff.1 hhead
                have hsize : c.utf8Size = 1 := by rcases hletter with rfl | rfl <;> rfl
                rw [hsize] at hnext ⊢
                exact quoted_eq _ _ _ _ (from?_next hnext) (by simp [hsize, Nat.add_assoc])
              · rw [plain_eq h]
                rfl

/-- A token is not empty. -/
theorem lt_of_token {kind : TokenKind} {stop : Nat} (h : from? pos source = some (c :: r))
    (hread : token rules source pos c r = some (.ok (kind, stop))) : pos < stop := by
  rw [token_eq rules h] at hread
  obtain ⟨s, hscan, he⟩ := exists_of_map_eq_ok (Option.some.inj hread)
  obtain ⟨-, rfl⟩ := Prod.mk.inj he
  have hpos : byteLength s.text ≠ 0 := mt eq_nil_of_byteLength (reads_scanToken hscan).1
  omega

/-! ### Sources -/

theorem le_of_skipGap {stop : Nat} (h : skipGap rules source pos = some (.ok stop)) : pos ≤ stop := by
  fun_induction skipGap rules source pos with
  | case1 => simp at h
  | case2 pos => simp_all
  | case3 pos c r hcons hc ih => exact Nat.le_trans (Nat.le_add_right _ _) (ih h)
  | case4 => simp at h
  | case5 => simp at h
  | case6 => simp_all
  | case7 pos c r hcons hc stop hread ih => exact Nat.le_trans (Nat.le_of_lt (lt_of_skipComment hcons hread)) (ih h)

/-- What is left of a source stands after the gap. -/
theorem exists_skipGap {start : Nat} (h : from? pos source = some cs)
    (hgap : skipGap rules source pos = some (.ok start)) :
    ∃ rest, Sql.skipGap rules pos cs = .ok (start, rest) ∧ from? start source = some rest := by
  rw [skipGap_eq rules h] at hgap
  obtain ⟨⟨stop, rest⟩, hread, rfl⟩ := exists_of_map_eq_ok (Option.some.inj hgap)
  obtain ⟨gap, rfl, rfl, -⟩ := skippable_of_skipGap hread
  exact ⟨rest, hread, from?_add h⟩

/-- The tokens of what starts at an offset. -/
def tokensFrom (rules : Rules) (source : List Char) (pos : Nat) : Option (Except LexError (List Token)) :=
  match _hgap : skipGap rules source pos with
  | none => none
  | some (.error e) => some (.error e)
  | some (.ok start) =>
    match _hpeek : from? start source with
    | none => none
    | some [] => some (.ok [])
    | some (c :: r) =>
      match _htoken : token rules source start c r with
      | none => none
      | some (.error e) => some (.error e)
      | some (.ok (kind, stop)) =>
        (tokensFrom rules source stop).map (·.map (⟨kind, ⟨start, stop⟩⟩ :: ·))
termination_by byteLength source - pos
decreasing_by
  have hle := le_of_skipGap _hgap
  exact Nat.lt_of_lt_of_le (sub_lt_of_from? _hpeek (lt_of_token _hpeek _htoken)) (Nat.sub_le_sub_left hle _)

theorem tokensFrom_eq (rules : Rules) (h : from? pos source = some cs) :
    tokensFrom rules source pos = some (Sql.tokensFrom rules pos cs) := by
  rw [Sql.tokensFrom_eq]
  fun_induction tokensFrom rules source pos generalizing cs with
  | case1 pos hnone => simp [skipGap_eq rules h] at hnone
  | case2 pos e hgap =>
      rw [skipGap_eq rules h] at hgap
      cases hread : Sql.skipGap rules pos cs <;> simp_all [Except.map, Except.bind]
  | case3 pos start hgap hnone =>
      obtain ⟨rest, -, hrest⟩ := exists_skipGap h hgap
      simp [hrest] at hnone
  | case4 pos start hgap hempty =>
      obtain ⟨rest, hread, hrest⟩ := exists_skipGap h hgap
      obtain rfl := eq_of_from? hrest hempty
      rw [hread]
      rfl
  | case5 pos start hgap c r hpeek hnone => simp [token_eq rules hpeek] at hnone
  | case6 pos start hgap c r hpeek e htoken =>
      obtain ⟨rest, hread, hrest⟩ := exists_skipGap h hgap
      obtain rfl := eq_of_from? hrest hpeek
      rw [token_eq rules hpeek] at htoken
      cases hscan : scanToken rules start c r <;> simp_all [Except.map, Except.bind]
  | case7 pos start hgap c r hpeek kind stop htoken ih =>
      obtain ⟨rest, hread, hrest⟩ := exists_skipGap h hgap
      obtain rfl := eq_of_from? hrest hpeek
      rw [token_eq rules hpeek] at htoken
      obtain ⟨s, hscan, he⟩ := exists_of_map_eq_ok (Option.some.inj htoken)
      obtain ⟨rfl, rfl⟩ := Prod.mk.inj he
      have hafter := from?_add ((reads_scanToken hscan).2 ▸ hpeek)
      rw [ih hafter, ← Sql.tokensFrom_eq, hread]
      simp only [Except.bind, hscan]
      rfl

/-- A fault of the source at an offset, with its location. -/
def failAt {α : Type} (source : List Char) (offset : Nat) (fault : ParseFault) : Option (Except ParseError α) :=
  (locate? source offset).map fun place => .error ⟨fault, place⟩

theorem failAt_eq {α : Type} (source : List Char) (offset : Nat) (fault : ParseFault) :
    failAt source offset fault = some (.error (.atOffset source offset fault) : Except ParseError α) := by
  rw [failAt, locate?_eq, ParseError.atOffset]
  rfl

/-- **The tokens of a source**, or the lexical error with its location. -/
def tokenize (rules : Rules) (source : List Char) : Option (Except ParseError (List Token)) := do
  match ← tokensFrom rules source 0 with
  | .ok tokens => some (.ok tokens)
  | .error e => failAt source e.offset (.lexical e.fault)

theorem tokenize_eq (rules : Rules) (source : List Char) :
    tokenize rules source = some ((Sql.tokenize rules source).mapError (.ofLexError source)) := by
  rw [tokenize, tokensFrom_eq rules (from?_zero source), ← Sql.tokenize]
  cases Sql.tokenize rules source with
  | ok tokens => rfl
  | error e => exact failAt_eq source e.offset (.lexical e.fault)

end Schemata.Sql.Guarded
