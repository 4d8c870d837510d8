import Schemata.Sql.Rules
import Schemata.Sql.Token
import Schemata.Text.Blank
import Schemata.Text.Location
import Schemata.Text.Numeric

/-! # From characters to tokens

The scanners below read one lexical element from the front of a list of characters.  Each returns
the text that it consumed and what follows it; the two together are the list that it was given.
`tokenize` reads a whole source: it skips blanks and comments, and fails where a comment, a literal
or a quoted identifier is not closed. -/

namespace Schemata.Sql

open Schemata.Text

/-- What is not closed at the end of a source. -/
inductive LexFault
  | openComment
  | openString
  | openIdentifier
  | openDollarString
deriving DecidableEq, Repr

/-- The words for what is not closed. -/
def LexFault.message : LexFault → String
  | openComment => "unterminated block comment"
  | openString => "unterminated string literal"
  | openIdentifier => "unterminated quoted identifier"
  | openDollarString => "unterminated dollar-quoted string"

/-- A fault and the byte offset of the element that is not closed. -/
structure LexError where
  fault : LexFault
  offset : Nat
deriving DecidableEq, Repr

/-- A value read from the front of a list, with the text it was read from and what follows. -/
structure Scanned (α : Type) where
  value : α
  text : List Char
  rest : List Char
deriving DecidableEq, Repr

namespace Scanned

variable {α β : Type}

/-- The same text with another value. -/
def map (f : α → β) (s : Scanned α) : Scanned β := { s with value := f s.value }

/-- The same value after some more text. -/
def after (text : List Char) (s : Scanned α) : Scanned α := { s with text := text ++ s.text }

end Scanned

/-! ### Comments -/

/-- Reads to the end of a block comment that is open `outer + 1` times. -/
def scanBlock (nested : Bool) (outer : Nat) : List Char → Option (Scanned Unit)
  | [] => none
  | [_] => none
  | a :: b :: r =>
    if a = '*' ∧ b = '/' then
      match outer with
      | 0 => some ⟨(), [a, b], r⟩
      | n + 1 => (scanBlock nested n r).map (·.after [a, b])
    else if nested ∧ a = '/' ∧ b = '*' then
      (scanBlock nested (outer + 1) r).map (·.after [a, b])
    else (scanBlock nested outer (b :: r)).map (·.after [a])

/-- Reads to the end of a line. -/
def scanLine (cs : List Char) : Scanned Unit :=
  ⟨(), cs.takeWhile (· ≠ '\n'), cs.dropWhile (· ≠ '\n')⟩

/-- Whether a line comment starts here. -/
def startsLineComment (rules : Rules) : List Char → Bool
  | '-' :: '-' :: _ => true
  | '#' :: _ => rules.hashComments
  | _ => false

/-- Reads one comment if there is one here. -/
def scanComment (rules : Rules) (cs : List Char) : Except LexFault (Option (Scanned Unit)) :=
  if startsLineComment rules cs then .ok (some (scanLine cs))
  else
    match cs with
    | '/' :: '*' :: r =>
      match scanBlock rules.nestedComments 0 r with
      | some s => .ok (some (s.after ['/', '*']))
      | none => .error .openComment
    | _ => .ok none

/-! ### Quoted texts -/

/-- What a backslash `c` and the character `d` after it stand for, where backslashes escape. -/
def escaped (unescape : Option (Char → Char)) (c d : Char) : Option Char :=
  if c = '\\' then unescape.map (· d) else none

/-- Reads to the closing quote.  A doubled quote stands for itself, and where `unescape` is given a
backslash and the character after it stand for the image of that character. -/
def scanQuoted (quote : Char) (unescape : Option (Char → Char)) :
    List Char → Option (Scanned (List Char))
  | [] => none
  | [c] => if c = quote then some ⟨[], [c], []⟩ else none
  | c :: d :: r =>
    if c = quote then
      if d = quote then
        (scanQuoted quote unescape r).map fun s => (s.map (c :: ·)).after [c, d]
      else some ⟨[], [c], d :: r⟩
    else
      match escaped unescape c d with
      | some e => (scanQuoted quote unescape r).map fun s => (s.map (e :: ·)).after [c, d]
      | none => (scanQuoted quote unescape (d :: r)).map fun s => (s.map (c :: ·)).after [c]

/-- What an escaped character of a string literal stands for. -/
def unescapeChar (c : Char) : Char :=
  if c = 'n' then '\n'
  else if c = 't' then '\t'
  else if c = 'r' then '\r'
  else if c = '0' then '\x00'
  else if c = 'b' then '\x08'
  else if c = 'Z' then '\x1a'
  else c

/-- Reads a string literal after its opening quote. -/
def scanString (escapes : Bool) (r : List Char) : Option (Scanned (List Char)) :=
  scanQuoted '\'' (if escapes then some unescapeChar else none) r

/-- Whether a text can stand between the two dollar signs of a mark. -/
def isDollarTag (tag : List Char) : Bool :=
  tag.all (fun c => c.isAlphanum || c == '_') && !(tag.head?.any Char.isDigit)

/-- Reads a dollar-quoted string after its first dollar sign; nothing if no mark starts here. -/
def scanDollar (r : List Char) : Except LexFault (Option (Scanned (List Char))) :=
  let tag := r.takeWhile (· ≠ '$')
  match r.dropWhile (· ≠ '$') with
  | [] => .ok none
  | _ :: body =>
    if isDollarTag tag then
      let mark := '$' :: tag ++ ['$']
      match breakOn mark body with
      | some (value, rest) =>
        .ok (some ⟨value, tag ++ '$' :: value ++ mark, rest.drop mark.length⟩)
      | none => .error .openDollarString
    else .ok none

/-! ### Words and numbers -/

/-- A character that starts a word. -/
def startsName (c : Char) : Bool := isAlphabetic c || c == '_'

/-- A character of a word. -/
def isNameChar (c : Char) : Bool := isAlphanumeric c || c == '_' || c == '$'

/-- Reads the characters that satisfy `p`. -/
def scanWhile (p : Char → Bool) (cs : List Char) : List Char × List Char :=
  (cs.takeWhile p, cs.dropWhile p)

/-- Reads a point and the digits after it, if there are any. -/
def scanFraction : List Char → List Char × List Char
  | '.' :: d :: r =>
    if d.isDigit then
      let (digits, rest) := scanWhile Char.isDigit (d :: r)
      ('.' :: digits, rest)
    else ([], '.' :: d :: r)
  | cs => ([], cs)

/-- Reads an exponent with at least one digit. -/
def scanExponent : List Char → List Char × List Char
  | [] => ([], [])
  | e :: r =>
    if e = 'e' ∨ e = 'E' then
      match r with
      | [] => ([], e :: r)
      | s :: t =>
        if s.isDigit then
          let (digits, rest) := scanWhile Char.isDigit (s :: t)
          (e :: digits, rest)
        else if (s = '+' ∨ s = '-') ∧ t.head?.any Char.isDigit then
          let (digits, rest) := scanWhile Char.isDigit t
          (e :: s :: digits, rest)
        else ([], e :: r)
    else ([], e :: r)

/-- Reads an unsigned number: digits, a fraction, an exponent. -/
def scanNumber (cs : List Char) : List Char × List Char :=
  let (whole, r) := scanWhile Char.isDigit cs
  let (fraction, s) := scanFraction r
  let (exponent, t) := scanExponent s
  (whole ++ fraction ++ exponent, t)

/-! ### Tokens -/

/-- The kinds of the tokens that are one character in every context. -/
def punctuation : List (Char × TokenKind) :=
  [('(', .lparen), (')', .rparen), ('[', .lbracket), (']', .rbracket), (',', .comma),
    (';', .semicolon), ('=', .equals)]

/-- A token whose text is its value. -/
def plainToken (kind : String → TokenKind) (read : List Char × List Char) : Scanned TokenKind :=
  ⟨kind (String.ofList read.1), read.1, read.2⟩

/-- A token read after an opening text, which fails where it is not closed. -/
def quotedToken (opening : List Char) (fault : LexFault) (offset : Nat)
    (kind : String → TokenKind) (read : Option (Scanned (List Char))) :
    Except LexError (Scanned TokenKind) :=
  match read with
  | some s => .ok ((s.map fun value => kind (String.ofList value)).after opening)
  | none => .error ⟨fault, offset⟩

/-- Reads a word, or a number, or a single symbol. -/
def scanPlain (c : Char) (r : List Char) : Scanned TokenKind :=
  if c.isDigit || (c == '.' && r.head?.any Char.isDigit) then
    plainToken .number (scanNumber (c :: r))
  else if c = '.' then ⟨.dot, [c], r⟩
  else if startsName c then plainToken .word (scanWhile isNameChar (c :: r))
  else ⟨.symbol c, [c], r⟩

/-- Reads the token that starts with `c` at byte `offset`. -/
def scanToken (rules : Rules) (offset : Nat) (c : Char) (r : List Char) :
    Except LexError (Scanned TokenKind) :=
  match punctuation.lookup c with
  | some kind => .ok ⟨kind, [c], r⟩
  | none =>
    if c = ':' ∧ r.head? = some ':' then .ok ⟨.doubleColon, [c, ':'], r.tail⟩
    else if c = '\'' then
      quotedToken [c] .openString offset .stringLit (scanString rules.backslashEscapes r)
    else if c = '$' ∧ rules.dollarQuotes then
      match scanDollar r with
      | .ok (some s) => .ok ((s.map fun value => .stringLit (String.ofList value)).after [c])
      | .ok none => .ok ⟨.symbol c, [c], r⟩
      | .error fault => .error ⟨fault, offset⟩
    else if rules.isIdentifierQuote c then
      quotedToken [c] .openIdentifier offset (.quotedIdent · c) (scanQuoted c none r)
    else if rules.escapeLiterals ∧ (c = 'e' ∨ c = 'E') ∧ r.head? = some '\'' then
      quotedToken [c, '\''] .openString (offset + 1) .stringLit (scanString true r.tail)
    else .ok (scanPlain c r)

/-! ### The text and the rest -/

namespace Scanned

variable {α β : Type}

/-- The text that was read is not empty and what follows it completes the input. -/
def Reads (s : Scanned α) (cs : List Char) : Prop := s.text ≠ [] ∧ s.text ++ s.rest = cs

theorem Reads.length_rest_lt {s : Scanned α} {cs : List Char} (h : s.Reads cs) :
    s.rest.length < cs.length := by
  obtain ⟨hne, rfl⟩ := h
  have := List.length_pos_iff.2 hne
  simp only [List.length_append]
  omega

theorem Reads.map {s : Scanned α} {cs : List Char} (f : α → β) (h : s.Reads cs) :
    (s.map f).Reads cs := h

theorem Reads.after {s : Scanned α} {cs : List Char} (text : List Char) (h : s.Reads cs) :
    (s.after text).Reads (text ++ cs) := by
  obtain ⟨hne, rfl⟩ := h
  exact ⟨by simp [Scanned.after, hne], by simp [Scanned.after]⟩

end Scanned

theorem reads_scanBlock {nested : Bool} {outer : Nat} {cs : List Char} {s : Scanned Unit}
    (h : scanBlock nested outer cs = some s) : s.Reads cs := by
  fun_induction scanBlock nested outer cs generalizing s with
  | case1 => simp at h
  | case2 => simp at h
  | case3 => 
    obtain rfl := Option.some.inj h
    simp [Scanned.Reads]
  | case4 a b r _ n ih =>
    obtain ⟨t, ht, rfl⟩ := Option.map_eq_some_iff.1 h
    exact (ih ht).after _
  | case5 outer a b r _ _ ih =>
    obtain ⟨t, ht, rfl⟩ := Option.map_eq_some_iff.1 h
    exact (ih ht).after _
  | case6 outer a b r _ _ ih =>
    obtain ⟨t, ht, rfl⟩ := Option.map_eq_some_iff.1 h
    exact (ih ht).after _

theorem reads_scanQuoted {quote : Char} {unescape : Option (Char → Char)} {cs : List Char}
    {s : Scanned (List Char)} (h : scanQuoted quote unescape cs = some s) : s.Reads cs := by
  fun_induction scanQuoted quote unescape cs generalizing s with
  | case1 => simp at h
  | case2 => obtain rfl := Option.some.inj h; simp [Scanned.Reads]
  | case3 => simp at h
  | case5 => obtain rfl := Option.some.inj h; simp [Scanned.Reads]
  | _ =>
    rename_i ih
    obtain ⟨t, ht, rfl⟩ := Option.map_eq_some_iff.1 h
    exact ((ih ht).map _).after _

theorem reads_scanComment {rules : Rules} {cs : List Char} {s : Scanned Unit}
    (h : scanComment rules cs = .ok (some s)) : s.Reads cs := by
  unfold scanComment at h
  split at h
  · rename_i hline
    obtain rfl : scanLine cs = s := by simpa using h
    refine ⟨?_, List.takeWhile_append_dropWhile⟩
    unfold startsLineComment at hline
    split at hline <;> simp_all [scanLine]
  · split at h
    · split at h
      · rename_i hblock
        obtain rfl := Option.some.inj (Except.ok.inj h)
        exact (reads_scanBlock hblock).after _
      · simp at h
    · simp at h

theorem breakOn_append {mark cs before rest : List Char} (h : breakOn mark cs = some (before, rest)) :
    before ++ rest = cs ∧ mark <+: rest := by
  induction cs generalizing before with
  | nil => 
    unfold breakOn at h
    split at h <;> simp_all
  | cons c r ih =>
    unfold breakOn at h
    split at h
    · rename_i hp
      obtain ⟨rfl, rfl⟩ : [] = before ∧ c :: r = rest := by simpa using h
      exact ⟨rfl, List.isPrefixOf_iff_prefix.1 hp⟩
    · obtain ⟨⟨b, q⟩, hb, he⟩ := Option.map_eq_some_iff.1 h
      obtain ⟨rfl, rfl⟩ : c :: b = before ∧ q = rest := by simpa using he
      exact ⟨by simp [(ih hb).1], (ih hb).2⟩

theorem reads_scanDollar {r : List Char} {s : Scanned (List Char)}
    (h : scanDollar r = .ok (some s)) : s.Reads r := by
  unfold scanDollar at h
  have split_r := List.takeWhile_append_dropWhile (p := (· ≠ '$')) (l := r)
  simp only at h
  split at h
  · simp at h
  · rename_i d body hd
    split at h
    · split at h
      · rename_i value rest hb
        obtain rfl := Option.some.inj (Except.ok.inj h)
        obtain ⟨rfl, hmark⟩ := breakOn_append hb
        obtain ⟨tail, rfl⟩ := hmark
        have hdollar : d = '$' := by
          have := List.head?_dropWhile_not (p := (· ≠ '$')) (l := r)
          rw [hd] at this
          simpa using this
        refine ⟨by simp, ?_⟩
        conv => rhs; rw [← split_r, hd, hdollar]
        simp
      · simp at h
    · simp at h

theorem append_scanFraction (cs : List Char) : (scanFraction cs).1 ++ (scanFraction cs).2 = cs := by
  unfold scanFraction
  split
  · split
    · simp only [scanWhile, List.cons_append, List.takeWhile_append_dropWhile]
    · rfl
  · rfl

theorem append_scanExponent (cs : List Char) : (scanExponent cs).1 ++ (scanExponent cs).2 = cs := by
  unfold scanExponent
  split
  · rfl
  · split
    · split
      · rfl
      · split
        · simp only [scanWhile, List.cons_append, List.takeWhile_append_dropWhile]
        · split
          · simp only [scanWhile, List.cons_append, List.takeWhile_append_dropWhile]
          · rfl
    · rfl

theorem append_scanNumber (cs : List Char) : (scanNumber cs).1 ++ (scanNumber cs).2 = cs := by
  simp only [scanNumber, scanWhile, List.append_assoc, append_scanExponent, append_scanFraction,
    List.takeWhile_append_dropWhile]

theorem scanNumber_ne_nil {c : Char} {r : List Char}
    (h : (c.isDigit || (c == '.' && r.head?.any Char.isDigit)) = true) :
    (scanNumber (c :: r)).1 ≠ [] := by
  by_cases hc : c.isDigit
  · simp [scanNumber, scanWhile, hc]
  · obtain ⟨rfl, d, hd, hdig⟩ : c = '.' ∧ ∃ d, r.head? = some d ∧ d.isDigit := by
      simpa [hc, Option.any_eq_true] using h
    obtain ⟨t, rfl⟩ : ∃ t, r = d :: t := by cases r <;> simp_all
    simp [scanNumber, scanWhile, scanFraction, hdig, hc]

theorem reads_scanPlain (c : Char) (r : List Char) : (scanPlain c r).Reads (c :: r) := by
  unfold scanPlain
  split
  · exact ⟨scanNumber_ne_nil ‹_›, append_scanNumber _⟩
  · split
    · exact ⟨by simp, rfl⟩
    · split
      · rename_i hname
        have : isNameChar c := by
          simp only [startsName, isNameChar, isAlphanumeric, Bool.or_eq_true] at hname ⊢
          rcases hname with h | h <;> simp [h]
        exact ⟨by simp [plainToken, scanWhile, this], by
          simp only [plainToken, scanWhile, List.takeWhile_append_dropWhile]⟩
      · exact ⟨by simp, rfl⟩

theorem reads_quotedToken {opening r : List Char} {fault : LexFault} {offset : Nat}
    {kind : String → TokenKind} {read : Option (Scanned (List Char))} {s : Scanned TokenKind}
    (hread : ∀ t, read = some t → t.Reads r)
    (h : quotedToken opening fault offset kind read = .ok s) : s.Reads (opening ++ r) := by
  unfold quotedToken at h
  split at h
  · obtain rfl := Except.ok.inj h
    exact ((hread _ rfl).map _).after _
  · simp at h

theorem reads_scanToken {rules : Rules} {offset : Nat} {c : Char} {r : List Char}
    {s : Scanned TokenKind} (h : scanToken rules offset c r = .ok s) : s.Reads (c :: r) := by
  have quoted : ∀ {q u}, ∀ t, scanQuoted q u r = some t → t.Reads r := fun _ ht => reads_scanQuoted ht
  unfold scanToken at h
  split at h
  · obtain rfl := Except.ok.inj h
    exact ⟨by simp, rfl⟩
  · split at h
    · rename_i hcolon
      obtain rfl := Except.ok.inj h
      obtain ⟨t, rfl⟩ : ∃ t, r = ':' :: t := by cases r <;> simp_all
      exact ⟨by simp, rfl⟩
    · split at h
      · exact reads_quotedToken (r := r) quoted h
      · split at h
        · split at h
          · rename_i hd
            obtain rfl := Except.ok.inj h
            exact ((reads_scanDollar hd).map _).after _
          · obtain rfl := Except.ok.inj h
            exact ⟨by simp, rfl⟩
          · simp at h
        · split at h
          · exact reads_quotedToken (r := r) quoted h
          · split at h
            · rename_i hesc
              obtain ⟨t, rfl⟩ : ∃ t, r = '\'' :: t := by cases r <;> simp_all
              exact reads_quotedToken (r := t) (fun _ ht => reads_scanQuoted ht) h
            · obtain rfl := Except.ok.inj h
              exact reads_scanPlain c r

/-! ### Sources -/

/-- Skips the blanks and comments that start at byte `pos`, and gives the byte after them. -/
def skipGap (rules : Rules) (pos : Nat) (cs : List Char) : Except LexError (Nat × List Char) :=
  match cs with
  | [] => .ok (pos, [])
  | c :: r =>
    if isBlank c then skipGap rules (pos + c.utf8Size) r
    else
      match _h : scanComment rules (c :: r) with
      | .ok (some s) => skipGap rules (pos + byteLength s.text) s.rest
      | .ok none => .ok (pos, c :: r)
      | .error fault => .error ⟨fault, pos⟩
termination_by cs.length
decreasing_by
  · simp
  · exact (reads_scanComment _h).length_rest_lt

theorem length_skipGap_le {rules : Rules} {pos stop : Nat} {cs rest : List Char}
    (h : skipGap rules pos cs = .ok (stop, rest)) : rest.length ≤ cs.length := by
  fun_induction skipGap rules pos cs with
  | case1 => simp_all
  | case2 _ _ _ _ ih => exact Nat.le_succ_of_le (ih h)
  | case3 _ _ _ _ _ hs ih =>
    exact Nat.le_trans (ih h) (Nat.le_of_lt (reads_scanComment hs).length_rest_lt)
  | case4 => simp_all
  | case5 => simp at h

/-- The tokens of what starts at byte `pos`. -/
def tokensFrom (rules : Rules) (pos : Nat) (cs : List Char) : Except LexError (List Token) :=
  match _hgap : skipGap rules pos cs with
  | .error e => .error e
  | .ok (_, []) => .ok []
  | .ok (start, c :: r) =>
    match _htoken : scanToken rules start c r with
    | .error e => .error e
    | .ok s =>
      let stop := start + byteLength s.text
      match tokensFrom rules stop s.rest with
      | .error e => .error e
      | .ok tokens => .ok (⟨s.value, ⟨start, stop⟩⟩ :: tokens)
termination_by cs.length
decreasing_by
  exact Nat.lt_of_lt_of_le (reads_scanToken _htoken).length_rest_lt (length_skipGap_le _hgap)

/-- The tokens of a source. -/
def tokenize (rules : Rules) (source : List Char) : Except LexError (List Token) :=
  tokensFrom rules 0 source

/-- The text of the source from the start of the first token to the end of the last one. -/
def sourceText (source : List Char) (tokens : List Token) : String :=
  match tokens.head?, tokens.getLast? with
  | some first, some last =>
    String.ofList (trimmed (slice source first.span.start last.span.stop))
  | _, _ => ""

end Schemata.Sql
