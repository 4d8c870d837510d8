import Mathlib.Data.Nat.Digits.Lemmas
import Schemata.Entity.Go
import Schemata.Proofs.Sql.Reading

/-! # String literals in Go

The name of a table is returned as a string literal, in which only quotes are escaped.  A literal has more
bytes than it stands for, by at least one for every quote and every backslash among them
(`exists_readInterpreted`), so a name with a backslash is not what its literal stands for
(`readLiteral_tableNameLiteral_iff`). -/

namespace Schemata.Entity.Go

open Schemata.Text

variable {c : Char} {cs r rest name : List Char} {value : List UInt8}

/-! ### Literals of Go -/

/-- The bytes of a text. -/
def encoded (cs : List Char) : List UInt8 := cs.flatMap String.utf8EncodeChar

/-- The value of a digit; it is 16 for any other character. -/
def digitValue (c : Char) : Nat := "0123456789abcdef".toList.idxOf c.toLower

/-- The number that `count` digits at the front spell. -/
def number? (base count : Nat) (cs : List Char) : Option Nat :=
  let digits := (cs.take count).map digitValue
  if digits.length = count ∧ ∀ d ∈ digits, d < base then some (Nat.ofDigits base digits.reverse) else none

/-- The bytes of a code point. -/
def codePoint? (n : Nat) : Option (List UInt8) :=
  if n.isValidChar then some (String.utf8EncodeChar (Char.ofNat n)) else none

/-- The escapes of one character. -/
def simpleEscapes : List (Char × UInt8) :=
  [('a', 0x07), ('b', 0x08), ('f', 0x0C), ('n', 0x0A), ('r', 0x0D), ('t', 0x09), ('v', 0x0B),
    ('\\', 0x5C), ('"', 0x22)]

/-- What a backslash before these characters stands for, and the number of them that belong to it. -/
def escape? : List Char → Option (List UInt8 × Nat)
  | [] => none
  | c :: r =>
    match simpleEscapes.lookup c with
    | some byte => some ([byte], 1)
    | none =>
      if c = 'x' then (number? 16 2 r).map fun n => ([n.toUInt8], 3)
      else if c = 'u' then ((number? 16 4 r).bind codePoint?).map (·, 5)
      else if c = 'U' then ((number? 16 8 r).bind codePoint?).map (·, 9)
      else ((number? 8 3 (c :: r)).filter (· < 256)).map fun n => ([n.toUInt8], 3)

/-- Whether a character can stand in a literal.  Compilers refuse the null character and the byte order mark
in a source text. -/
def isLiteralChar (c : Char) : Bool := c != '\n' && c != '\x00' && c != '\uFEFF'

/-- Reads a literal to its closing quote: the bytes that it stands for and what follows it. -/
def readInterpreted (cs : List Char) : Option (List UInt8 × List Char) :=
  match cs with
  | [] => none
  | c :: r =>
    if c = '"' then some ([], r)
    else if c = '\\' then
      match escape? r with
      | some (bytes, n) => (readInterpreted (r.drop n)).map (Prod.map (bytes ++ ·) id)
      | none => none
    else if isLiteralChar c then (readInterpreted r).map (Prod.map (String.utf8EncodeChar c ++ ·) id)
    else none
termination_by cs.length
decreasing_by
  all_goals simp only [List.length_cons, List.length_drop]
  all_goals omega

/-- Reads a literal between double quotes. -/
def readLiteral : List Char → Option (List UInt8 × List Char)
  | '"' :: r => readInterpreted r
  | _ => none

/-! ### Bytes -/

/-- A byte of ASCII stands for its character only. -/
theorem mem_utf8EncodeChar_iff {b : UInt8} (hb : b.toNat < 128) :
    b ∈ String.utf8EncodeChar c ↔ c.toNat = b.toNat := by
  have hval : c.val.toNat = c.toNat := rfl
  unfold String.utf8EncodeChar
  dsimp only
  split_ifs <;> simp only [List.mem_cons, List.not_mem_nil, or_false, ← UInt8.toNat_inj, UInt8.toNat_ofNat']
    <;> omega

theorem encoded_cons (c : Char) (r : List Char) : encoded (c :: r) = String.utf8EncodeChar c ++ encoded r :=
  List.flatMap_cons

theorem encoded_append (cs r : List Char) : encoded (cs ++ r) = encoded cs ++ encoded r :=
  List.flatMap_append

theorem length_le_length_encoded (cs : List Char) : cs.length ≤ (encoded cs).length := by
  induction cs with
  | nil => exact Nat.le_refl 0
  | cons c r ih =>
      have := c.utf8Size_pos
      rw [encoded_cons, List.length_append, String.length_utf8EncodeChar, List.length_cons]
      omega

/-- A character of ASCII is a byte that no other character has. -/
structure IsByte (ch : Char) (b : UInt8) : Prop where
  ascii : b.toNat < 128
  encoding : String.utf8EncodeChar ch = [b]

theorem isByte_quote : IsByte '"' 0x22 := ⟨by decide, by decide⟩

theorem isByte_slash : IsByte '\\' 0x5C := ⟨by decide, by decide⟩

theorem IsByte.count_eq_zero {ch : Char} {b : UInt8} (h : IsByte ch b) (hc : c ≠ ch) :
    (String.utf8EncodeChar c).count b = 0 := by
  have hch : ch.toNat = b.toNat := (mem_utf8EncodeChar_iff h.ascii).1 (by simp [h.encoding])
  rw [List.count_eq_zero, mem_utf8EncodeChar_iff h.ascii, ← hch]
  exact fun he => hc (Char.toNat_inj.1 he)

theorem IsByte.count_encoded {ch : Char} {b : UInt8} (h : IsByte ch b) (cs : List Char) :
    (encoded cs).count b = cs.count ch := by
  induction cs with
  | nil => rfl
  | cons c r ih =>
      rw [encoded_cons, List.count_append, ih, List.count_cons]
      by_cases hc : c = ch
      · simp [hc, h.encoding, Nat.add_comm]
      · simp [h.count_eq_zero hc, hc]

theorem count_add_count_le {a b : UInt8} (hab : a ≠ b) (l : List UInt8) :
    l.count a + l.count b ≤ l.length := by
  induction l with
  | nil => simp
  | cons d l ih =>
      rw [List.count_cons, List.count_cons, List.length_cons]
      by_cases ha : d = a
      · have hb : d ≠ b := by rwa [ha]
        simp only [ha, beq_self_eq_true, if_true, beq_iff_eq, hab, if_false]
        omega
      · simp only [beq_iff_eq, ha, if_false]
        split <;> omega

/-! ### Escapes -/

theorem number?_eq_some {base count n : Nat} (hbase : 1 < base) (h : number? base count cs = some n) :
    count ≤ cs.length ∧ n < base ^ count ∧ ∀ c ∈ cs.take count, digitValue c < base := by
  unfold number? at h
  dsimp only at h
  split at h
  · rename_i hdigits
    obtain ⟨hlength, hall⟩ := hdigits
    obtain rfl := Option.some.inj h
    refine ⟨?_, ?_, fun c hc => hall _ (List.mem_map_of_mem hc)⟩
    · rw [List.length_map, List.length_take] at hlength
      omega
    · have := Nat.ofDigits_lt_base_pow_length (l := ((cs.take count).map digitValue).reverse) hbase
        (by simpa using hall)
      rwa [List.length_reverse, hlength] at this
  · simp at h

/-- Digits can stand in a literal. -/
theorem isLiteralChar_of_digitValue (h : digitValue c < 16) : isLiteralChar c := by
  have table : ∀ d ∈ "0123456789abcdef".toList, isLiteralChar d := by decide
  have hmem : c.toLower ∈ "0123456789abcdef".toList := List.idxOf_lt_length_iff.1 h
  have hlower := table _ hmem
  rw [← Bool.not_eq_false]
  intro hno
  simp only [isLiteralChar, Bool.and_eq_false_iff, bne_eq_false_iff_eq] at hno
  rcases hno with (rfl | rfl) | rfl <;> simp at hlower hmem

/-- How an escape is read: half of its characters, the backslash among them, are enough for its bytes. -/
structure ReadsEscape (cs : List Char) (bytes : List UInt8) (n : Nat) : Prop where
  short : 2 * bytes.length ≤ n + 1
  fits : n ≤ cs.length
  plain : ∀ c ∈ cs.take n, isLiteralChar c

theorem readsEscape_of_number? {base count n : Nat} (hc : isLiteralChar c) (hbase : 1 < base ∧ base ≤ 16)
    (h : number? base count r = some n) (hshort : 2 * value.length ≤ count + 2) :
    ReadsEscape (c :: r) value (count + 1) := by
  obtain ⟨hfits, -, hdigits⟩ := number?_eq_some hbase.1 h
  refine ⟨hshort, by simpa using hfits, ?_⟩
  rw [List.take_succ_cons, List.forall_mem_cons]
  exact ⟨hc, fun d hd => isLiteralChar_of_digitValue (Nat.lt_of_lt_of_le (hdigits d hd) hbase.2)⟩

/-- A code point has at most four bytes, and at most three below `0x10000`. -/
theorem length_codePoint? {n : Nat} (h : codePoint? n = some value) :
    value.length ≤ 4 ∧ (n < 0x10000 → value.length ≤ 3) := by
  unfold codePoint? at h
  split at h
  · rename_i hvalid
    obtain rfl := Option.some.inj h
    have hn : (Char.ofNat n).toNat = n := by
      rw [Char.ofNat, dif_pos hvalid]
      rfl
    have hle := (Char.ofNat n).utf8Size_le_four
    rw [String.length_utf8EncodeChar]
    refine ⟨hle, fun hlt => ?_⟩
    have hfour : (Char.ofNat n).utf8Size ≠ 4 := by
      rw [Ne, Char.utf8Size_eq_four_iff, UInt32.lt_iff_toNat_lt]
      change ¬0xffff < (Char.ofNat n).toNat
      omega
    omega
  · simp at h

theorem readsEscape_of_escape? {n : Nat} (h : escape? cs = some (value, n)) : ReadsEscape cs value n := by
  have simple : ∀ e ∈ simpleEscapes, isLiteralChar e.1 := by decide
  unfold escape? at h
  split at h
  · simp at h
  · rename_i c r
    split at h
    · rename_i byte hlookup
      obtain ⟨rfl, rfl⟩ := Prod.mk.inj (Option.some.inj h)
      have hc := simple (c, byte) (Sql.mem_of_lookup hlookup)
      exact ⟨by simp, by simp, by simpa using hc⟩
    · split_ifs at h with hx hu hlong
      · obtain ⟨m, hm, he⟩ := Option.map_eq_some_iff.1 h
        obtain ⟨rfl, rfl⟩ := Prod.mk.inj he
        exact readsEscape_of_number? (by rw [hx]; decide) (by decide) hm (by simp)
      · obtain ⟨bytes, hbytes, he⟩ := Option.map_eq_some_iff.1 h
        obtain ⟨rfl, rfl⟩ := Prod.mk.inj he
        obtain ⟨m, hm, hpoint⟩ := Option.bind_eq_some_iff.1 hbytes
        have hshort := (length_codePoint? hpoint).2 (number?_eq_some (by decide) hm).2.1
        exact readsEscape_of_number? (by rw [hu]; decide) (by decide) hm (by omega)
      · obtain ⟨bytes, hbytes, he⟩ := Option.map_eq_some_iff.1 h
        obtain ⟨rfl, rfl⟩ := Prod.mk.inj he
        obtain ⟨m, hm, hpoint⟩ := Option.bind_eq_some_iff.1 hbytes
        have hshort := (length_codePoint? hpoint).1
        exact readsEscape_of_number? (by rw [hlong]; decide) (by decide) hm (by omega)
      · obtain ⟨m, hm, he⟩ := Option.map_eq_some_iff.1 h
        obtain ⟨rfl, rfl⟩ := Prod.mk.inj he
        obtain ⟨hfits, -, hdigits⟩ := number?_eq_some (by decide) (Option.eq_some_of_filter_eq_some hm)
        exact ⟨by simp, hfits, fun d hd =>
          isLiteralChar_of_digitValue (Nat.lt_trans (hdigits d hd) (by decide))⟩

/-! ### Literals -/

/-- The text of a literal that is read: its bytes are no fewer than those that it stands for, by one for
every quote and every backslash among them. -/
theorem exists_readInterpreted (h : readInterpreted cs = some (value, rest)) :
    ∃ text, cs = text ++ '"' :: rest ∧ (∀ c ∈ text, isLiteralChar c) ∧
      value.length + value.count 0x22 + value.count 0x5C ≤ (encoded text).length := by
  fun_induction readInterpreted cs generalizing value with
  | case1 => simp at h
  | case2 r =>
      obtain ⟨rfl, rfl⟩ := Prod.mk.inj (Option.some.inj h)
      exact ⟨[], rfl, by simp, by simp⟩
  | case3 r bytes n hescape _ ih =>
      obtain ⟨⟨value, rest'⟩, hread, he⟩ := Option.map_eq_some_iff.1 h
      obtain ⟨rfl, rfl⟩ := Prod.mk.inj he
      obtain ⟨text, htext, hall, hlength⟩ := ih hread
      obtain ⟨hshort, hfits, hplain⟩ := readsEscape_of_escape? hescape
      have slash : isLiteralChar '\\' := by decide
      refine ⟨'\\' :: (r.take n ++ text), ?_, ?_, ?_⟩
      · rw [List.cons_append, List.append_assoc, ← htext, List.take_append_drop]
      · rw [List.forall_mem_cons, List.forall_mem_append]
        exact ⟨slash, hplain, hall⟩
      · have hbytes := count_add_count_le (a := 0x22) (b := 0x5C) (by decide) bytes
        have htake := length_le_length_encoded (r.take n)
        rw [List.length_take, Nat.min_eq_left hfits] at htake
        rw [encoded_cons, encoded_append, isByte_slash.encoding]
        simp only [List.length_append, List.count_append, List.length_singleton]
        omega
  | case4 => simp at h
  | case5 c r hquote hslash hc ih =>
      obtain ⟨⟨value, rest'⟩, hread, he⟩ := Option.map_eq_some_iff.1 h
      obtain ⟨rfl, rfl⟩ := Prod.mk.inj he
      obtain ⟨text, rfl, hall, hlength⟩ := ih hread
      refine ⟨c :: text, rfl, List.forall_mem_cons.2 ⟨hc, hall⟩, ?_⟩
      rw [encoded_cons]
      simp only [List.length_append, List.count_append, isByte_quote.count_eq_zero hquote,
        isByte_slash.count_eq_zero hslash]
      omega
  | case6 => simp at h

/-! ### Names of tables -/

/-- A quote after a backslash, any other character as itself. -/
def quoted (c : Char) : List Char := if c = '"' then ['\\', '"'] else [c]

theorem toList_tableNameLiteral (name : String) (rest : List Char) :
    (tableNameLiteral name).toList ++ rest = '"' :: (name.toList.flatMap quoted ++ '"' :: rest) := by
  have hreplaced : (replaceChar '"' "\\\"" name).toList = name.toList.flatMap quoted :=
    String.toList_ofList
  rw [tableNameLiteral, String.toList_append, String.toList_append, hreplaced]
  simp

/-- Names without backslashes are read back. -/
theorem readInterpreted_quoted (h : ∀ c ∈ name, c ≠ '\\' ∧ isLiteralChar c) :
    readInterpreted (name.flatMap quoted ++ '"' :: rest) = some (encoded name, rest) := by
  induction name with
  | nil => simp [readInterpreted, encoded]
  | cons c r ih =>
      obtain ⟨⟨hslash, hc⟩, hr⟩ := List.forall_mem_cons.1 h
      rw [List.flatMap_cons, List.append_assoc, quoted, encoded_cons]
      split
      · rename_i hquote
        have hescape : ∀ cs, escape? ('"' :: cs) = some ([0x22], 1) := fun _ => rfl
        rw [List.cons_append, List.cons_append, List.nil_append, readInterpreted, if_neg (by decide),
          if_pos rfl, hescape]
        simp [ih hr, hquote, isByte_quote.encoding]
      · rename_i hquote
        rw [List.singleton_append, readInterpreted, if_neg hquote, if_neg hslash, if_pos hc, ih hr]
        rfl

/-- Every quote of a name is one byte more in its literal. -/
theorem length_encoded_quoted (name : List Char) :
    (encoded (name.flatMap quoted)).length = (encoded name).length + name.count '"' := by
  induction name with
  | nil => rfl
  | cons c r ih =>
      rw [List.flatMap_cons, encoded_append, encoded_cons, List.length_append, List.length_append, ih,
        List.count_cons, quoted]
      split
      · rename_i hquote
        simp [encoded, hquote, isByte_quote.encoding, isByte_slash.encoding]
        omega
      · rename_i hquote
        simp [encoded, hquote]
        omega

/-- **A name is read back from its literal** exactly if it has no backslash, no line feed, and no character
that compilers refuse. -/
theorem readLiteral_tableNameLiteral_iff (name : String) (rest : List Char) :
    readLiteral ((tableNameLiteral name).toList ++ rest) = some (encoded name.toList, rest) ↔
      ∀ c ∈ name.toList, c ≠ '\\' ∧ isLiteralChar c := by
  rw [toList_tableNameLiteral]
  refine ⟨fun h => ?_, readInterpreted_quoted⟩
  obtain ⟨text, htext, hall, hlength⟩ := exists_readInterpreted h
  obtain rfl : name.toList.flatMap quoted = text := List.append_cancel_right htext
  rw [length_encoded_quoted, isByte_quote.count_encoded, isByte_slash.count_encoded] at hlength
  have hnone : '\\' ∉ name.toList := List.count_eq_zero.1 (by omega)
  refine fun c hc => ⟨ne_of_mem_of_not_mem hc hnone, hall c (List.mem_flatMap.2 ⟨c, hc, ?_⟩)⟩
  unfold quoted
  split <;> simp [*]

end Schemata.Entity.Go
