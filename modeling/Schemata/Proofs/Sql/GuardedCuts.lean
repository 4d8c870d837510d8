import Schemata.Proofs.Sql.Coverage

/-! # Cuts that can fail

The bytes from one offset to another can be cut out of a text only if neither offset is past the end or
inside of a character and the first one is not after the second (`isSome_cut?`), and the elements from one
place to another out of a list only if the places are in order and inside of it.  A cut that is possible
gives what `slice` gives (`cut?_eq_some`).  The location of an error is found by such cuts, all of which
are possible (`locate?_eq`). -/

namespace Schemata.Text

open Sql (IsBoundary)

variable {α : Type} {cs a b w : List Char} {c : Char} {n m start stop : Nat}

/-! ### Cuts of texts -/

/-- What stands from a byte offset on. -/
def from? : Nat → List Char → Option (List Char)
  | 0, cs => some cs
  | _ + 1, [] => none
  | n + 1, c :: r => if c.utf8Size ≤ n + 1 then from? (n + 1 - c.utf8Size) r else none

/-- What stands before a byte offset. -/
def upTo? : Nat → List Char → Option (List Char)
  | 0, _ => some []
  | _ + 1, [] => none
  | n + 1, c :: r => if c.utf8Size ≤ n + 1 then (upTo? (n + 1 - c.utf8Size) r).map (c :: ·) else none

/-- What stands from one byte offset to another. -/
def cut? (cs : List Char) (start stop : Nat) : Option (List Char) :=
  if start ≤ stop then (from? start cs).bind (upTo? (stop - start)) else none

/-- An offset after a character is not the first one. -/
theorem exists_succ (c : Char) (a : List Char) : ∃ n, byteLength (c :: a) = n + 1 ∧
    c.utf8Size ≤ n + 1 ∧ n + 1 - c.utf8Size = byteLength a := by
  have := c.utf8Size_pos
  refine ⟨byteLength (c :: a) - 1, ?_⟩
  rw [byteLength_cons]
  omega

@[simp] theorem from?_zero (cs : List Char) : from? 0 cs = some cs := by
  unfold from?
  rfl

theorem from?_append (a b : List Char) : from? (byteLength a) (a ++ b) = some b := by
  induction a with
  | nil => exact from?_zero b
  | cons c a ih =>
      obtain ⟨n, hn, hle, hrest⟩ := exists_succ c a
      rw [hn, List.cons_append, from?, if_pos hle, hrest]
      exact ih

theorem upTo?_append (a b : List Char) : upTo? (byteLength a) (a ++ b) = some a := by
  induction a with
  | nil =>
      unfold upTo?
      rfl
  | cons c a ih =>
      obtain ⟨n, hn, hle, hrest⟩ := exists_succ c a
      rw [hn, List.cons_append, upTo?, if_pos hle, hrest, ih]
      rfl

theorem from?_eq_some : from? n cs = some b ↔ ∃ a, cs = a ++ b ∧ n = byteLength a := by
  constructor
  · intro h
    fun_induction from? n cs with
    | case1 cs => exact ⟨[], Option.some.inj h, rfl⟩
    | case2 => simp at h
    | case3 n c r hle ih =>
        obtain ⟨a, rfl, ha⟩ := ih h
        exact ⟨c :: a, rfl, by rw [byteLength_cons]; omega⟩
    | case4 => simp at h
  · rintro ⟨a, rfl, rfl⟩
    exact from?_append a b

theorem upTo?_eq_some : upTo? n cs = some a ↔ ∃ b, cs = a ++ b ∧ n = byteLength a := by
  constructor
  · intro h
    fun_induction upTo? n cs generalizing a with
    | case1 cs => exact ⟨cs, by rw [← Option.some.inj h]; rfl, by rw [← Option.some.inj h]; rfl⟩
    | case2 => simp at h
    | case3 n c r hle ih =>
        obtain ⟨a, ha, rfl⟩ := Option.map_eq_some_iff.1 h
        obtain ⟨b, rfl, hb⟩ := ih ha
        exact ⟨b, rfl, by rw [byteLength_cons]; omega⟩
    | case4 => simp at h
  · rintro ⟨b, rfl, rfl⟩
    exact upTo?_append a b

/-- What is cut out stands between the offsets. -/
theorem cut?_eq_some_iff : cut? cs start stop = some w ↔
    ∃ a b, cs = a ++ (w ++ b) ∧ start = byteLength a ∧ stop = byteLength a + byteLength w := by
  unfold cut?
  constructor
  · split
    · simp only [Option.bind_eq_some_iff, from?_eq_some, upTo?_eq_some]
      rintro ⟨r, ⟨a, rfl, rfl⟩, b, rfl, hstop⟩
      exact ⟨a, b, rfl, rfl, by omega⟩
    · simp
  · rintro ⟨a, b, rfl, rfl, rfl⟩
    rw [if_pos (Nat.le_add_right _ _), from?_append, Option.bind_some, Nat.add_sub_cancel_left,
      upTo?_append]

theorem eq_of_from? {r r' : List Char} (h : from? n cs = some r) (h' : from? n cs = some r') : r = r' :=
  Option.some.inj (h.symm.trans h')

theorem isSome_from? : (from? n cs).isSome ↔ IsBoundary cs n := by
  simp only [Option.isSome_iff_exists, from?_eq_some, IsBoundary]
  exact exists_comm

/-- Boundaries in order enclose a part of a text. -/
theorem exists_between (hstart : IsBoundary cs start) (hstop : IsBoundary cs stop) (h : start ≤ stop) :
    ∃ a w b, cs = a ++ (w ++ b) ∧ start = byteLength a ∧ stop = byteLength a + byteLength w := by
  obtain ⟨a, r, rfl, rfl⟩ := hstart
  obtain ⟨a', b, he, rfl⟩ := hstop
  rcases List.append_eq_append_iff.1 he with ⟨w, rfl, rfl⟩ | ⟨w, rfl, rfl⟩
  · exact ⟨a, w, b, rfl, rfl, byteLength_append a w⟩
  · rw [byteLength_append] at h
    obtain rfl : w = [] := eq_nil_of_byteLength (by omega)
    exact ⟨a', [], r, by simp, by simp, by simp⟩

/-- **A cut is possible** between boundaries of characters that are in order. -/
theorem isSome_cut? :
    (cut? cs start stop).isSome ↔ start ≤ stop ∧ IsBoundary cs start ∧ IsBoundary cs stop := by
  simp only [Option.isSome_iff_exists, cut?_eq_some_iff]
  constructor
  · rintro ⟨w, a, b, rfl, rfl, rfl⟩
    exact ⟨Nat.le_add_right _ _, ⟨a, w ++ b, rfl, rfl⟩, a ++ w, b, by simp, by simp⟩
  · rintro ⟨h, hstart, hstop⟩
    obtain ⟨a, w, b, hcut⟩ := exists_between hstart hstop h
    exact ⟨w, a, b, hcut⟩

example : cut? ['é'] 1 2 = none ∧ cut? ['é'] 2 0 = none ∧ cut? ['é'] 0 3 = none := by decide

/-- **A cut that is possible gives the bytes between the offsets.** -/
theorem cut?_eq_some (hstart : IsBoundary cs start) (hstop : IsBoundary cs stop) (h : start ≤ stop) :
    cut? cs start stop = some (slice cs start stop) := by
  obtain ⟨a, w, b, rfl, rfl, rfl⟩ := exists_between hstart hstop h
  rw [← List.append_assoc a, slice_append, List.append_assoc]
  exact cut?_eq_some_iff.2 ⟨a, b, rfl, rfl, rfl⟩

theorem cut?_append (a w b : List Char) :
    cut? (a ++ (w ++ b)) (byteLength a) (byteLength a + byteLength w) = some w :=
  cut?_eq_some_iff.2 ⟨a, b, rfl, rfl, rfl⟩

/-! ### What stands at an offset -/

/-- What stands after a part of what stands at an offset. -/
theorem from?_add (h : from? n cs = some (a ++ b)) : from? (n + byteLength a) cs = some b := by
  obtain ⟨before, rfl, rfl⟩ := from?_eq_some.1 h
  rw [← List.append_assoc, ← byteLength_append]
  exact from?_append _ b

theorem from?_next (h : from? n cs = some (c :: b)) : from? (n + c.utf8Size) cs = some b :=
  from?_add (a := [c]) h

theorem cut?_of_from? (h : from? n cs = some (a ++ b)) : cut? cs n (n + byteLength a) = some a := by
  obtain ⟨before, rfl, rfl⟩ := from?_eq_some.1 h
  exact cut?_append before a b

theorem le_of_from? (h : from? n cs = some b) : n + byteLength b = byteLength cs := by
  obtain ⟨a, rfl, rfl⟩ := from?_eq_some.1 h
  exact (byteLength_append a b).symm

/-- There is less of a text after a character of it. -/
theorem sub_lt_of_from? (h : from? n cs = some (c :: b)) (hm : n < m) :
    byteLength cs - m < byteLength cs - n := by
  have hle := le_of_from? h
  have := c.utf8Size_pos
  rw [byteLength_cons] at hle
  omega

theorem sub_next_lt (h : from? n cs = some (c :: b)) :
    byteLength cs - (n + c.utf8Size) < byteLength cs - n :=
  sub_lt_of_from? h (Nat.lt_add_of_pos_right c.utf8Size_pos)

/-! ### Cuts of lists -/

/-- The elements of a list from one place to another. -/
def cutList? (l : List α) (start stop : Nat) : Option (List α) :=
  if start ≤ stop ∧ stop ≤ l.length then some ((l.drop start).take (stop - start)) else none

theorem cutList?_append (l m r : List α) :
    cutList? (l ++ (m ++ r)) l.length (l.length + m.length) = some m := by
  rw [cutList?, if_pos ⟨Nat.le_add_right _ _, by simp only [List.length_append]; omega⟩]
  simp

theorem cutList?_drop {l : List α} (h : start ≤ l.length) :
    cutList? l start l.length = some (l.drop start) := by
  rw [cutList?, if_pos ⟨h, Nat.le_refl _⟩, List.take_of_length_le (by simp)]

/-- What is cut out after a start of a list. -/
theorem cutList?_add (l r : List α) (start stop : Nat) :
    cutList? (l ++ r) (l.length + start) (l.length + stop) = cutList? r start stop := by
  rw [cutList?, cutList?, List.length_append, ← List.drop_drop, List.drop_left, Nat.add_sub_add_left]
  simp only [Nat.add_le_add_iff_left]

/-! ### Locations -/

/-- The last boundary of characters up to a byte offset, found by going back a byte at a time. -/
def floor? (source : List Char) : Nat → Option Nat
  | 0 => if (from? 0 source).isSome then some 0 else none
  | n + 1 => if (from? (n + 1) source).isSome then some (n + 1) else floor? source n

/-- The byte offset of the last line feed. -/
def lastFeed? : List Char → Option Nat
  | [] => none
  | c :: r =>
    match lastFeed? r with
    | some n => some (c.utf8Size + n)
    | none => if c = '\n' then some 0 else none

/-- The location of a byte offset, found by cuts. -/
def locate? (source : List Char) (offset : Nat) : Option Location := do
  let offset ← floor? source (min offset (byteLength source))
  let before ← cut? source 0 offset
  let line ← cut? source ((lastFeed? before).elim 0 (· + 1)) offset
  some ⟨before.count '\n' + 1, line.length + 1, offset⟩

/-- Nothing more is taken up to an offset inside of a character. -/
theorem takeBytes_succ (h : ¬IsBoundary cs (n + 1)) : takeBytes (n + 1) cs = takeBytes n cs := by
  induction cs generalizing n with
  | nil => rfl
  | cons c r ih =>
      have hne : c.utf8Size ≠ n + 1 := fun he => h ⟨[c], r, rfl, he.symm⟩
      unfold takeBytes
      by_cases hle : c.utf8Size ≤ n
      · rw [if_pos hle, if_pos (Nat.le_succ_of_le hle), Nat.succ_sub hle, ih]
        rintro ⟨a, b, rfl, ha⟩
        exact h ⟨c :: a, b, rfl, by rw [byteLength_cons]; omega⟩
      · rw [if_neg hle, if_neg (by omega)]

theorem takeBytes_min (n : Nat) (cs : List Char) : takeBytes (min n (byteLength cs)) cs = takeBytes n cs := by
  have hall : ∀ {m cs}, byteLength cs ≤ m → takeBytes m cs = cs := by
    intro m cs h
    induction cs generalizing m with
    | nil => rfl
    | cons c r ih =>
        rw [byteLength_cons] at h
        rw [takeBytes, if_pos (by omega), ih (by omega)]
  rcases Nat.le_total n (byteLength cs) with h | h
  · rw [Nat.min_eq_left h]
  · rw [Nat.min_eq_right h, hall h, hall (Nat.le_refl _)]

theorem floor?_eq (source : List Char) (n : Nat) :
    floor? source n = some (byteLength (takeBytes n source)) := by
  have hat : ∀ {m}, IsBoundary source m → byteLength (takeBytes m source) = m := by
    rintro m ⟨a, b, rfl, rfl⟩
    rw [takeBytes_append]
  induction n with
  | zero =>
      have hzero : byteLength (takeBytes 0 source) = 0 := hat ⟨[], source, rfl, rfl⟩
      rw [floor?, if_pos (by simp), hzero]
  | succ n ih =>
      unfold floor?
      by_cases h : IsBoundary source (n + 1)
      · rw [if_pos (isSome_from?.2 h), hat h]
      · rw [if_neg (mt isSome_from?.1 h), takeBytes_succ h, ih]

theorem lastFeed?_cases (cs : List Char) : (lastFeed? cs = none ∧ '\n' ∉ cs) ∨
    ∃ a b, cs = a ++ '\n' :: b ∧ '\n' ∉ b ∧ lastFeed? cs = some (byteLength a) := by
  induction cs with
  | nil => exact .inl ⟨rfl, by simp⟩
  | cons c r ih =>
      unfold lastFeed?
      rcases ih with ⟨hnone, hr⟩ | ⟨a, b, rfl, hb, hsome⟩
      · rw [hnone]
        by_cases hc : c = '\n'
        · exact .inr ⟨[], r, by rw [hc]; rfl, hr, if_pos hc⟩
        · exact .inl ⟨if_neg hc, by simp [hr, Ne.symm hc]⟩
      · rw [hsome]
        exact .inr ⟨c :: a, b, rfl, hb, rfl⟩

/-- The last line starts after the last line feed. -/
theorem exists_lastLine (cs : List Char) : ∃ a, cs = a ++ lastLine cs ∧
    (lastFeed? cs).elim 0 (· + 1) = byteLength a := by
  have hline : ∀ {b : List Char} (r : List Char), '\n' ∉ b →
      (b.reverse ++ r).takeWhile (· ≠ '\n') = b.reverse ++ r.takeWhile (· ≠ '\n') := by
    intro b r hb
    apply List.takeWhile_append_of_pos
    intro c hc
    simpa using fun he : c = '\n' => hb (he ▸ List.mem_reverse.1 hc)
  rcases lastFeed?_cases cs with ⟨hnone, hcs⟩ | ⟨a, b, rfl, hb, hsome⟩
  · have hlast : lastLine cs = cs := by
      have := hline [] hcs
      rw [List.append_nil] at this
      rw [lastLine, this]
      simp
    exact ⟨[], by rw [hlast]; rfl, by rw [hnone]; rfl⟩
  · have hlast : lastLine (a ++ '\n' :: b) = b := by
      rw [lastLine, List.reverse_append, List.reverse_cons, List.append_assoc, hline _ hb]
      simp
    refine ⟨a ++ ['\n'], by rw [hlast]; simp, ?_⟩
    rw [hsome, byteLength_append]
    rfl

theorem takeBytes_prefix (n : Nat) (cs : List Char) : takeBytes n cs <+: cs := by
  induction cs generalizing n with
  | nil => exact List.prefix_rfl
  | cons c r ih =>
      unfold takeBytes
      split
      · exact (List.prefix_cons_inj c).2 (ih _)
      · exact List.nil_prefix

/-- **An error is located by cuts that are possible.** -/
theorem locate?_eq (source : List Char) (offset : Nat) :
    locate? source offset = some (.ofOffset source offset) := by
  obtain ⟨rest, hrest⟩ := takeBytes_prefix offset source
  obtain ⟨a, hlines, hstart⟩ := exists_lastLine (takeBytes offset source)
  have hbefore : cut? source 0 (byteLength (takeBytes offset source)) =
      some (takeBytes offset source) :=
    cut?_eq_some_iff.2 ⟨[], rest, hrest.symm, rfl, by simp⟩
  have hline : cut? source (byteLength a) (byteLength (takeBytes offset source)) =
      some (lastLine (takeBytes offset source)) := by
    refine cut?_eq_some_iff.2 ⟨a, rest, ?_, rfl, ?_⟩
    · rw [← List.append_assoc, ← hlines, hrest]
    · rw [← byteLength_append, ← hlines]
  simp [locate?, floor?_eq, takeBytes_min, hbefore, hstart, hline, Location.ofOffset]

end Schemata.Text
