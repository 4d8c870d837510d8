import Schemata.Proofs.Sql.GuardedCuts

/-! # Locations in a source

An offset is located at the last boundary of characters up to it (`le_byteLength_takeBytes`), and its line and
column are counted in what stands before (`exists_lines`).  More text before a place means more line feeds, or
as many and more characters after the last one (`precedes_append`).  So locations come in the order of their
offsets, and no two of them have the same line and column (`locations_faithful`). -/

namespace Schemata.Text

open Sql (IsBoundary)

variable {source cs w : List Char} {n m : Nat}

/-! ### Offsets -/

theorem byteLength_takeBytes_le (n : Nat) (cs : List Char) : byteLength (takeBytes n cs) ≤ n := by
  induction cs generalizing n with
  | nil => exact Nat.zero_le n
  | cons c r ih =>
      unfold takeBytes
      split
      · have := ih (n - c.utf8Size)
        rw [byteLength_cons]
        omega
      · exact Nat.zero_le n

/-- **What is taken up to an offset** has every boundary up to it. -/
theorem le_byteLength_takeBytes (hm : IsBoundary source m) (h : m ≤ n) :
    m ≤ byteLength (takeBytes n source) := by
  obtain ⟨a, b, rfl, rfl⟩ := hm
  induction a generalizing n with
  | nil => exact Nat.zero_le _
  | cons c a ih =>
      rw [byteLength_cons] at h ⊢
      have hrest := ih (n := n - c.utf8Size) (by omega)
      rw [List.cons_append, takeBytes, if_pos (by omega), byteLength_cons]
      omega

theorem ofOffset_append (a b : List Char) : Location.ofOffset (a ++ b) (byteLength a) =
    ⟨a.count '\n' + 1, (lastLine a).length + 1, byteLength a⟩ := by
  rw [Location.ofOffset, takeBytes_append]

/-- An offset is located where the text taken up to it ends. -/
theorem exists_ofOffset (source : List Char) (n : Nat) : ∃ a b, source = a ++ b ∧
    Location.ofOffset source n = .ofOffset source (byteLength a) := by
  obtain ⟨b, hb⟩ := takeBytes_prefix n source
  refine ⟨takeBytes n source, b, hb.symm, ?_⟩
  have hlocated := ofOffset_append (takeBytes n source) b
  rw [hb] at hlocated
  rw [hlocated, Location.ofOffset]

/-! ### Lines and columns -/

/-- The last line has no line feed, and stands after one or at the start. -/
theorem exists_lines (cs : List Char) : ∃ lines, cs = lines ++ lastLine cs ∧ '\n' ∉ lastLine cs ∧
    (lines = [] ∨ lines.getLast? = some '\n') := by
  refine ⟨(cs.reverse.dropWhile (· ≠ '\n')).reverse, ?_, ?_, ?_⟩
  · rw [lastLine, ← List.reverse_append, List.takeWhile_append_dropWhile, List.reverse_reverse]
  · intro hmem
    simpa using List.all_eq_true.1 List.all_takeWhile _ (List.mem_reverse.1 hmem)
  · rw [List.reverse_eq_nil_iff, List.getLast?_reverse]
    rcases hrest : cs.reverse.dropWhile (· ≠ '\n') with _ | ⟨c, r⟩
    · exact .inl rfl
    · have hc := List.head?_dropWhile_not (· ≠ '\n') cs.reverse
      rw [hrest] at hc
      right
      simpa using hc

theorem lastLine_append (h : '\n' ∉ w) (a : List Char) : lastLine (a ++ w) = lastLine a ++ w := by
  have hw : ∀ c ∈ w.reverse, decide (c ≠ '\n') = true := by
    intro c hc
    simpa using fun he : c = '\n' => h (he ▸ List.mem_reverse.1 hc)
  rw [lastLine, List.reverse_append, List.takeWhile_append_of_pos hw, List.reverse_append, List.reverse_reverse,
    lastLine]

/-- A location comes before another one: on an earlier line, or earlier on the same line. -/
def Location.Precedes (k l : Location) : Prop := k.line < l.line ∨ k.line = l.line ∧ k.column < l.column

/-- **More text before a place** moves its location on. -/
theorem precedes_append (hw : w ≠ []) (a b : List Char) :
    (Location.ofOffset (a ++ (w ++ b)) (byteLength a)).Precedes
      (.ofOffset (a ++ (w ++ b)) (byteLength (a ++ w))) := by
  rw [ofOffset_append, ← List.append_assoc, ofOffset_append]
  by_cases hfeed : '\n' ∈ w
  · have hpos := List.count_pos_iff.2 hfeed
    left
    dsimp only
    rw [List.count_append]
    omega
  · have hpos := List.length_pos_iff.2 hw
    right
    dsimp only
    rw [List.count_append, List.count_eq_zero.2 hfeed, lastLine_append hfeed, List.length_append]
    omega

/-! ### Locations -/

/-- A location says where an offset is. -/
structure Locates (source : List Char) (offset : Nat) (l : Location) : Prop where
  /-- It is at a boundary of characters, and at the last one that is neither after the offset nor after the
  source. -/
  boundary : IsBoundary source l.offset
  le : l.offset ≤ min offset (byteLength source)
  greatest : ∀ n, IsBoundary source n → n ≤ min offset (byteLength source) → n ≤ l.offset
  /-- The line is counted by the line feeds before it, and the column by the characters after the last one. -/
  counts : ∃ lines last rest, source = lines ++ last ++ rest ∧ l.offset = byteLength (lines ++ last) ∧
    (lines = [] ∨ lines.getLast? = some '\n') ∧ '\n' ∉ last ∧
    l.line = 1 + (lines ++ last).count '\n' ∧ l.column = 1 + last.length

theorem locates_ofOffset (source : List Char) (offset : Nat) :
    Locates source offset (.ofOffset source offset) := by
  have htaken : (Location.ofOffset source offset).offset = byteLength (takeBytes offset source) := rfl
  obtain ⟨rest, hsource⟩ := takeBytes_prefix offset source
  have hlength := congrArg byteLength hsource
  rw [byteLength_append] at hlength
  constructor
  case boundary => exact ⟨_, rest, hsource.symm, rfl⟩
  case le =>
    have := byteLength_takeBytes_le offset source
    omega
  case greatest => exact fun n hn hle => le_byteLength_takeBytes hn (by omega)
  case counts =>
    obtain ⟨lines, hlines, hlast, hends⟩ := exists_lines (takeBytes offset source)
    refine ⟨lines, _, rest, by rw [← hlines, hsource], by rw [← hlines, htaken], hends, hlast, ?_, ?_⟩
    · rw [← hlines, Nat.add_comm]
      rfl
    · exact Nat.add_comm _ _

/-- How offsets in a source are located. -/
structure LocatesFaithfully (source : List Char) : Prop where
  located : ∀ offset, Locates source offset (.ofOffset source offset)
  /-- A boundary of characters is located where it is. -/
  fixed : ∀ n, IsBoundary source n → (Location.ofOffset source n).offset = n
  ordered : ∀ m n, IsBoundary source m → IsBoundary source n → m < n →
    (Location.ofOffset source m).Precedes (.ofOffset source n)
  /-- A line and a column belong to one place. -/
  unique : ∀ m n, (Location.ofOffset source m).line = (Location.ofOffset source n).line →
    (Location.ofOffset source m).column = (Location.ofOffset source n).column →
    (Location.ofOffset source m).offset = (Location.ofOffset source n).offset

/-- **Locations are faithful** and come in the order of their offsets. -/
theorem locations_faithful (source : List Char) : LocatesFaithfully source := by
  have hordered : ∀ m n, IsBoundary source m → IsBoundary source n → m < n →
      (Location.ofOffset source m).Precedes (.ofOffset source n) := by
    intro m n hm hn hlt
    obtain ⟨a, w, b, rfl, rfl, rfl⟩ := exists_between hm hn (Nat.le_of_lt hlt)
    rw [← byteLength_append]
    refine precedes_append ?_ a b
    rintro rfl
    simp at hlt
  have hlocated := locates_ofOffset source
  constructor
  case located => exact hlocated
  case fixed =>
    rintro n ⟨a, b, rfl, rfl⟩
    rw [ofOffset_append]
  case ordered => exact hordered
  case unique =>
    intro m n hline hcolumn
    obtain ⟨a, b, hab, hm⟩ := exists_ofOffset source m
    obtain ⟨a', b', hab', hn⟩ := exists_ofOffset source n
    rw [hm, hn] at hline hcolumn ⊢
    -- of two boundaries the earlier one is located before the later one
    rcases Nat.lt_trichotomy (byteLength a) (byteLength a') with hlt | he | hlt
    · have := hordered _ _ ⟨a, b, hab, rfl⟩ ⟨a', b', hab', rfl⟩ hlt
      rw [Location.Precedes, hline, hcolumn] at this
      omega
    · rw [he]
    · have := hordered _ _ ⟨a', b', hab', rfl⟩ ⟨a, b, hab, rfl⟩ hlt
      rw [Location.Precedes, hline, hcolumn] at this
      omega

end Schemata.Text
