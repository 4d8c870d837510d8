import Mathlib.Tactic.ByContra
import Mathlib.Tactic.SplitIfs
import Schemata.Proofs.Sql.Quoting

/-! # Tokens before separators

What a token is depends on the text after it only as far as this goes on the token.  So the text
after a token can be exchanged for any text that starts with a separator (`scanToken_exchange`), and
the same holds of layouts (`Layout.Fits.exchange`). -/

namespace Schemata.Sql

open Schemata.Text Layout

variable {rules : Rules} {pos : Nat} {x y z : List Char}

/-! ### Separators -/

/-- The characters that go on nothing before them. -/
def separators : List Char := [' ', '\n', ',', '(', ')', ';', '=']

/-- A text that is empty or starts with a separator. -/
def Separated (rest : List Char) : Prop := ∀ c ∈ rest.head?, c ∈ separators

instance (rest : List Char) : Decidable (Separated rest) :=
  inferInstanceAs (Decidable (∀ c ∈ rest.head?, c ∈ separators))

theorem separated_nil : Separated [] := by
  simp [Separated]

theorem separated_cons {c : Char} {r : List Char} : Separated (c :: r) ↔ c ∈ separators := by
  simp [Separated]

theorem Separated.head (h : Separated z) {p : Char → Prop} (hp : ∀ c ∈ separators, p c) :
    ∀ c ∈ z.head?, p c := fun c hc => hp c (h c hc)

theorem Separated.stops (h : Separated z) : Stops z := h.head (by decide)

/-- What holds of the first character of a text holds after the text is exchanged from some place
on. -/
theorem head_exchange (h : Separated z) {p : Char → Prop} (hp : ∀ c ∈ separators, p c)
    (hx : ∀ c ∈ (x ++ y).head?, p c) : ∀ c ∈ (x ++ z).head?, p c := by
  cases x with
  | nil => exact h.head hp
  | cons d x => simpa using hx

/-- A text is not led by an exchange into starting with a character that is no separator. -/
theorem head_ne_exchange {q : Char} (h : Separated z) (hq : q ∉ separators)
    (hne : (x ++ y).head? ≠ some q) : (x ++ z).head? ≠ some q := by
  intro he
  have other : ∀ c ∈ separators, c ≠ q := fun c hc heq => hq (heq ▸ hc)
  exact head_exchange h other (fun c hc heq => hne (heq ▸ hc)) q he rfl

/-- Whether a text starts with one character of each class in turn. -/
def leads : List (Char → Bool) → List Char → Bool
  | [], _ => true
  | _ :: _, [] => false
  | p :: ps, c :: r => p c && leads ps r

/-- Classes without separators are not led by an exchange into matching. -/
theorem leads_exchange (h : Separated z) {ps : List (Char → Bool)}
    (hp : ∀ p ∈ ps, ∀ c ∈ separators, p c = false) (hl : leads ps (x ++ z)) :
    leads ps (x ++ y) := by
  induction ps generalizing x with
  | nil => simp [leads]
  | cons p ps ih =>
      cases x with
      | nil =>
          cases z with
          | nil => simp [leads] at hl
          | cons c r =>
              have := hp p (by simp) c (separated_cons.1 h)
              simp [leads, this] at hl
      | cons d x =>
          simp only [List.cons_append, leads, Bool.and_eq_true] at hl ⊢
          exact ⟨hl.1, ih (fun q hq => hp q (by simp [hq])) hl.2⟩

theorem leads_exchange_false (h : Separated z) {ps : List (Char → Bool)}
    (hp : ∀ p ∈ ps, ∀ c ∈ separators, p c = false) (hl : leads ps (x ++ y) = false) :
    leads ps (x ++ z) = false := by
  by_contra hne
  have := leads_exchange (y := y) h hp (by simpa using hne)
  simp [hl] at this

/-! ### Quoted texts -/

/-- A quoted text ends where its quote is not doubled. -/
theorem head?_rest_scanQuoted {q : Char} {u : Option (Char → Char)} {cs : List Char}
    {s : Scanned (List Char)} (h : scanQuoted q u cs = some s) : ∀ c ∈ s.rest.head?, c ≠ q := by
  fun_induction scanQuoted q u cs generalizing s with
  | case1 => simp at h
  | case2 =>
      obtain rfl := Option.some.inj h
      simp
  | case3 => simp at h
  | case5 d r hd =>
      obtain rfl := Option.some.inj h
      simpa using hd
  | _ =>
      rename_i ih
      obtain ⟨t, ht, rfl⟩ := Option.map_eq_some_iff.1 h
      have := ih ht
      exact this

/-- A quoted text is read again before any text that does not start with its quote. -/
theorem scanQuoted_text {q : Char} {u : Option (Char → Char)} {cs r : List Char}
    {s : Scanned (List Char)} (h : scanQuoted q u cs = some s) (hr : ∀ c ∈ r.head?, c ≠ q) :
    scanQuoted q u (s.text ++ r) = some { s with rest := r } := by
  fun_induction scanQuoted q u cs generalizing s with
  | case1 => simp at h
  | case2 =>
      obtain rfl := Option.some.inj h
      cases r with
      | nil => simp [scanQuoted]
      | cons d r =>
          have hd : d ≠ q := hr d rfl
          simp [scanQuoted, hd]
  | case3 => simp at h
  | case4 r' ih =>
      obtain ⟨t, ht, rfl⟩ := Option.map_eq_some_iff.1 h
      simp [Scanned.after, Scanned.map, scanQuoted, ih ht]
  | case5 d r' hd =>
      obtain rfl := Option.some.inj h
      cases r with
      | nil => simp [scanQuoted]
      | cons e r =>
          have he : e ≠ q := hr e rfl
          simp [scanQuoted, he]
  | case6 c d r' hc e he ih =>
      obtain ⟨t, ht, rfl⟩ := Option.map_eq_some_iff.1 h
      simp [Scanned.after, Scanned.map, scanQuoted, hc, he, ih ht]
  | case7 c d r' hc he ih =>
      obtain ⟨t, ht, rfl⟩ := Option.map_eq_some_iff.1 h
      have first : ∃ w, t.text = d :: w := by
        obtain ⟨hne, happ⟩ := reads_scanQuoted ht
        obtain ⟨e, w, hw⟩ := List.exists_cons_of_ne_nil hne
        rw [hw] at happ
        exact ⟨w, by rw [hw, (List.cons.inj happ).1]⟩
      obtain ⟨w, hw⟩ := first
      have := ih ht
      rw [hw] at this
      simp only [List.cons_append] at this
      simp [Scanned.after, Scanned.map, scanQuoted, hc, hw, he, this]

/-- What follows a quoted text can be exchanged. -/
theorem scanQuoted_exchange {q : Char} {u : Option (Char → Char)} {v a : List Char}
    (hq : goesOn q = true) (h : scanQuoted q u (a ++ (x ++ y)) = some ⟨v, a, x ++ y⟩)
    (hr : Separated z) : scanQuoted q u (a ++ (x ++ z)) = some ⟨v, a, x ++ z⟩ := by
  refine scanQuoted_text h (head_exchange hr (fun c hc => ?_) (head?_rest_scanQuoted h))
  have stop : ∀ c ∈ separators, goesOn c = false := by decide
  exact (ne_of_test hq (stop c hc)).symm

/-! ### Runs of characters -/

/-- What is read is characters that satisfy `p`, up to one that does not. -/
theorem scanWhile_eq_iff {p : Char → Bool} {a y : List Char} :
    scanWhile p (a ++ y) = (a, y) ↔ (∀ c ∈ a, p c) ∧ ∀ c ∈ y.head?, p c = false := by
  constructor
  · intro h
    obtain ⟨htake, hdrop⟩ := Prod.mk.inj h
    refine ⟨fun c hc => ?_, fun c hc => ?_⟩
    · rw [← htake] at hc
      exact List.all_eq_true.1 List.all_takeWhile c hc
    · have := List.head?_dropWhile_not p (a ++ y)
      rw [hdrop, hc] at this
      simpa using this
  · rintro ⟨ha, hy⟩
    simp only [scanWhile, takeWhile_append_of_head ha hy, dropWhile_append_of_head ha hy]

theorem scanWhile_exchange {p : Char → Bool} {a : List Char} (hp : ∀ c ∈ separators, p c = false)
    (h : scanWhile p (a ++ (x ++ y)) = (a, x ++ y)) (hr : Separated z) :
    scanWhile p (a ++ (x ++ z)) = (a, x ++ z) := by
  obtain ⟨ha, hx⟩ := scanWhile_eq_iff.1 h
  exact scanWhile_eq_iff.2 ⟨ha, head_exchange hr hp hx⟩

/-! ### Numbers -/

theorem leads_append_left {ps : List (Char → Bool)} {a : List Char} (h : ps.length ≤ a.length)
    (y : List Char) : leads ps (a ++ y) = leads ps a := by
  induction ps generalizing a with
  | nil => rfl
  | cons p ps ih =>
      cases a with
      | nil => simp at h
      | cons c a => simp [leads, ih (by simpa using h)]

/-- What an opening and one more class lead is that class after the opening. -/
theorem leads_concat (ps : List (Char → Bool)) {q : Char → Bool} {cs : List Char}
    (h : leads (ps ++ [q]) cs) : ∃ d r, cs.drop ps.length = d :: r ∧ q d := by
  induction ps generalizing cs with
  | nil =>
      cases cs with
      | nil => simp [leads] at h
      | cons d r => exact ⟨d, r, rfl, by simpa [leads] using h⟩
  | cons p ps ih =>
      cases cs with
      | nil => simp [leads] at h
      | cons c cs =>
          simp only [List.cons_append, leads, Bool.and_eq_true] at h
          exact ih h.2

/-- Reads digits after the first of the given openings that they follow. -/
def scanLed : List (List (Char → Bool)) → List Char → List Char × List Char
  | [], cs => ([], cs)
  | ps :: rest, cs =>
    if leads (ps ++ [Char.isDigit]) cs then
      let (digits, r) := scanWhile Char.isDigit (cs.drop ps.length)
      (cs.take ps.length ++ digits, r)
    else scanLed rest cs

/-- The letters that start an exponent. -/
def isExponentLetter (c : Char) : Bool := c == 'e' || c == 'E'

/-- The signs of an exponent. -/
def isSign (c : Char) : Bool := c == '+' || c == '-'

theorem scanFraction_eq (cs : List Char) : scanFraction cs = scanLed [[(· == '.')]] cs := by
  unfold scanFraction
  split
  · simp [scanLed, leads]
  · rename_i hne
    have : leads [(· == '.'), Char.isDigit] cs = false := by
      match cs, hne with
      | [], _ => rfl
      | [c], _ => simp [leads]
      | c :: d :: r, hne => 
        have : c ≠ '.' := fun hc => hne d r (by rw [hc])
        simp [leads, this]
    simp [scanLed, this]

theorem scanExponent_eq (cs : List Char) :
    scanExponent cs = scanLed [[isExponentLetter], [isExponentLetter, isSign]] cs := by
  unfold scanExponent
  split
  · simp [scanLed, leads]
  · rename_i e r
    split
    · rename_i he
      have he' : isExponentLetter e := by simpa [isExponentLetter] using he
      split
      · simp [scanLed, leads]
      · rename_i s t
        by_cases hs : s.isDigit
        · simp [scanLed, leads, he', hs]
        · cases t with
          | nil => simp [scanLed, leads, hs]
          | cons d t =>
              by_cases hsign : s = '+' ∨ s = '-'
              · by_cases hd : d.isDigit
                · simp [scanLed, leads, he', hs, isSign, hsign, hd]
                · simp [scanLed, leads, he', hs, isSign, hsign, hd]
              · have hsign' : isSign s = false := by simpa [isSign] using hsign
                simp [scanLed, leads, he', hs, hsign, hsign']
    · rename_i he
      have he' : isExponentLetter e = false := by simpa [isExponentLetter] using he
      simp [scanLed, leads, he']

/-- What is read after an opening holds the opening, and the digits after it, of which there is at
least one. -/
theorem scanLed_opening {ps : List (Char → Bool)} {a y : List Char}
    (hl : leads (ps ++ [Char.isDigit]) (a ++ y))
    (h : (a ++ y).take ps.length ++ (scanWhile Char.isDigit ((a ++ y).drop ps.length)).1 = a) :
    ps.length < a.length ∧
      a.drop ps.length = (scanWhile Char.isDigit ((a ++ y).drop ps.length)).1 := by
  obtain ⟨d, r, hd, hdigit⟩ := leads_concat _ hl
  have hlen : ps.length < (a ++ y).length := by
    have := congrArg List.length hd
    rw [List.length_drop, List.length_cons] at this
    omega
  have hdrop : a.drop ps.length = (scanWhile Char.isDigit ((a ++ y).drop ps.length)).1 := by
    conv => lhs; rw [← h]
    rw [List.drop_left' (by rw [List.length_take]; omega)]
  refine ⟨?_, hdrop⟩
  rw [hd] at hdrop
  have := congrArg List.length hdrop
  rw [List.length_drop, scanWhile, List.takeWhile_cons, if_pos hdigit] at this
  simp only [List.length_cons] at this
  omega

theorem scanLed_exchange {alts : List (List (Char → Bool))} {a : List Char}
    (hp : ∀ ps ∈ alts, ∀ p ∈ ps, ∀ c ∈ separators, p c = false)
    (h : scanLed alts (a ++ (x ++ y)) = (a, x ++ y)) (hr : Separated z) :
    scanLed alts (a ++ (x ++ z)) = (a, x ++ z) := by
  have digit : ∀ c ∈ separators, c.isDigit = false := by decide
  induction alts with
  | nil =>
      obtain rfl : a = [] := (Prod.mk.inj h).1.symm
      rfl
  | cons ps rest ih =>
      rw [scanLed] at h ⊢
      by_cases hl : leads (ps ++ [Char.isDigit]) (a ++ (x ++ y))
      · rw [if_pos hl] at h
        obtain ⟨hlong, hdrop⟩ := scanLed_opening hl (Prod.mk.inj h).1
        have enough : (ps ++ [Char.isDigit]).length ≤ a.length := by
          rw [List.length_append, List.length_singleton]
          exact hlong
        rw [leads_append_left enough] at hl ⊢
        rw [if_pos hl]
        have hle : ps.length ≤ a.length := Nat.le_of_lt hlong
        rw [List.drop_append_of_le_length hle] at hdrop
        simp only [List.drop_append_of_le_length hle, List.take_append_of_le_length hle] at h ⊢
        have hread : scanWhile Char.isDigit (a.drop ps.length ++ (x ++ y)) =
            (a.drop ps.length, x ++ y) := Prod.ext hdrop.symm (Prod.mk.inj h).2
        rw [scanWhile_exchange digit hread hr]
        simp
      · have classes : ∀ p ∈ ps ++ [Char.isDigit], ∀ c ∈ separators, p c = false := by
          intro p hmem
          rcases List.mem_append.1 hmem with hmem | hmem
          · exact hp ps (by simp) p hmem
          · obtain rfl := List.mem_singleton.1 hmem
            exact digit
        rw [if_neg hl] at h
        have := leads_exchange_false (x := a ++ x) (y := y) hr classes (by simpa using hl)
        rw [List.append_assoc] at this
        rw [this]
        exact ih (fun q hq => hp q (by simp [hq])) h

theorem scanNumber_exchange {a : List Char} (h : scanNumber (a ++ (x ++ y)) = (a, x ++ y))
    (hr : Separated z) : scanNumber (a ++ (x ++ z)) = (a, x ++ z) := by
  have digit : ∀ c ∈ separators, c.isDigit = false := by decide
  have point : ∀ ps ∈ [[(· == '.')]], ∀ p ∈ ps, ∀ c ∈ separators, p c = false := by decide
  have exponent : ∀ ps ∈ [[isExponentLetter], [isExponentLetter, isSign]], ∀ p ∈ ps,
      ∀ c ∈ separators, p c = false := by decide
  -- the parts of the number, each read before what follows it
  obtain ⟨w, s, hw⟩ : ∃ w s, scanWhile Char.isDigit (a ++ (x ++ y)) = (w, s) := ⟨_, _, rfl⟩
  obtain ⟨f, t, hf⟩ : ∃ f t, scanFraction s = (f, t) := ⟨_, _, rfl⟩
  obtain ⟨e, u, he⟩ : ∃ e u, scanExponent t = (e, u) := ⟨_, _, rfl⟩
  have hparts := h
  simp only [scanNumber, hw, hf, he, Prod.mk.injEq] at hparts
  obtain ⟨rfl, rfl⟩ := hparts
  have ht : t = e ++ (x ++ y) := by
    have := append_scanExponent t
    rw [he] at this
    exact this.symm
  have hs : s = f ++ (e ++ (x ++ y)) := by
    have := append_scanFraction s
    rw [hf, ht] at this
    exact this.symm
  subst ht hs
  simp only [List.append_assoc] at hw
  have hw' : scanWhile Char.isDigit (w ++ (f ++ (e ++ (x ++ z)))) =
      (w, f ++ (e ++ (x ++ z))) := by
    have := scanWhile_exchange (x := f ++ (e ++ x)) (y := y) digit (by simpa using hw) hr
    simpa using this
  have hf' : scanFraction (f ++ (e ++ (x ++ z))) = (f, e ++ (x ++ z)) := by
    rw [scanFraction_eq] at hf ⊢
    have := scanLed_exchange (x := e ++ x) (y := y) point (by simpa using hf) hr
    simpa using this
  have he' : scanExponent (e ++ (x ++ z)) = (e, x ++ z) := by
    rw [scanExponent_eq] at he ⊢
    exact scanLed_exchange exponent he hr
  simp [scanNumber, hw', hf', he']

/-! ### Dollar-quoted strings -/

/-- The first occurrence of a mark is found whatever follows it. -/
theorem breakOn_exchange {mark v y₁ : List Char} (y₂ : List Char)
    (h : breakOn mark (v ++ (mark ++ y₁)) = some (v, mark ++ y₁)) :
    breakOn mark (v ++ (mark ++ y₂)) = some (v, mark ++ y₂) := by
  induction v with
  | nil =>
      rw [List.nil_append]
      cases hm : mark ++ y₂ with
      | nil =>
          obtain ⟨rfl, -⟩ := List.append_eq_nil_iff.1 hm
          rfl
      | cons c r =>
          have : mark.isPrefixOf (c :: r) := by
            rw [← hm, List.isPrefixOf_iff_prefix]
            exact List.prefix_append _ _
          rw [breakOn, if_pos this]
  | cons c v ih =>
      rw [List.cons_append, breakOn] at h ⊢
      have same : mark.isPrefixOf (c :: (v ++ (mark ++ y₁))) =
          mark.isPrefixOf (c :: (v ++ (mark ++ y₂))) := by
        have inner : ∀ y, mark.isPrefixOf (c :: (v ++ (mark ++ y))) ↔ mark <+: c :: v ++ mark := by
          intro y
          rw [List.isPrefixOf_iff_prefix]
          have hwhole : c :: v ++ mark <+: c :: (v ++ (mark ++ y)) := ⟨y, by simp⟩
          constructor
          · intro hp
            exact List.prefix_of_prefix_length_le hp hwhole (by simp; omega)
          · intro hp
            exact hp.trans hwhole
        rw [Bool.eq_iff_iff, inner, inner]
      by_cases hp : mark.isPrefixOf (c :: (v ++ (mark ++ y₁)))
      · rw [if_pos hp] at h
        simp at h
      · rw [if_neg hp] at h
        rw [← same, if_neg hp]
        obtain ⟨⟨b, q⟩, hb, he⟩ := Option.map_eq_some_iff.1 h
        obtain ⟨rfl, rfl⟩ : b = v ∧ q = mark ++ y₁ := by simpa using he
        rw [ih hb]
        rfl

/-- Dollar signs and the characters between them. -/
theorem takeWhile_dollar (tag r : List Char) (h : '$' ∉ tag) :
    (tag ++ '$' :: r).takeWhile (· ≠ '$') = tag ∧ (tag ++ '$' :: r).dropWhile (· ≠ '$') = '$' :: r := by
  have ha : ∀ c ∈ tag, decide (c ≠ '$') = true := by
    intro c hc
    simpa using fun he : c = '$' => h (he ▸ hc)
  exact ⟨takeWhile_append_of_head ha (by simp), dropWhile_append_of_head ha (by simp)⟩

/-- The mark at both ends of a dollar-quoted string. -/
def dollarMark (tag : List Char) : List Char := '$' :: tag ++ ['$']

theorem scanDollar_tag {tag body : List Char} (h : '$' ∉ tag) :
    scanDollar (tag ++ '$' :: body) =
      if isDollarTag tag then
        match breakOn (dollarMark tag) body with
        | some (value, rest) =>
          .ok (some ⟨value, tag ++ '$' :: value ++ dollarMark tag,
            rest.drop (dollarMark tag).length⟩)
        | none => .error .openDollarString
      else .ok none := by
  obtain ⟨htake, hdrop⟩ := takeWhile_dollar tag body h
  unfold scanDollar
  dsimp only
  rw [htake, hdrop]
  rfl

/-- Without a dollar sign no mark is closed. -/
theorem scanDollar_of_notMem {cs : List Char} (h : '$' ∉ cs) : scanDollar cs = .ok none := by
  have : cs.dropWhile (· ≠ '$') = [] := by
    rw [← List.append_nil cs, dropWhile_append_of_head _ (by simp)]
    intro c hc
    simpa using fun he : c = '$' => h (he ▸ hc)
  simp only [scanDollar, this]

/-- The first dollar sign of a text. -/
theorem split_at_dollar {cs : List Char} (h : '$' ∈ cs) :
    ∃ tag body, cs = tag ++ '$' :: body ∧ '$' ∉ tag := by
  obtain ⟨tag, body, he, hn⟩ := List.eq_append_cons_of_mem h
  exact ⟨tag, body, he, hn⟩

theorem scanDollar_exchange {v t : List Char}
    (h : scanDollar (t ++ (x ++ y)) = .ok (some ⟨v, t, x ++ y⟩)) :
    scanDollar (t ++ (x ++ z)) = .ok (some ⟨v, t, x ++ z⟩) := by
  by_cases hd : '$' ∈ t ++ (x ++ y)
  · obtain ⟨tag, body, he, htag⟩ := split_at_dollar hd
    rw [he, scanDollar_tag htag] at h
    by_cases ht : isDollarTag tag
    · rw [if_pos ht] at h
      cases hb : breakOn (dollarMark tag) body with
      | none => simp [hb] at h
      | some p =>
          obtain ⟨value, rest⟩ := p
          obtain ⟨hbody, tail, hmark⟩ := breakOn_append hb
          subst hmark
          simp only [hb, Except.ok.injEq, Option.some.injEq, Scanned.mk.injEq,
            List.drop_left] at h
          obtain ⟨rfl, rfl, rfl⟩ := h
          rw [← hbody] at hb
          have hb' := breakOn_exchange (x ++ z) hb
          have hsource : tag ++ '$' :: value ++ dollarMark tag ++ (x ++ z) =
              tag ++ '$' :: (value ++ (dollarMark tag ++ (x ++ z))) := by simp
          rw [hsource, scanDollar_tag htag, if_pos ht, hb']
          simp
    · rw [if_neg ht] at h
      simp at h
  · rw [scanDollar_of_notMem hd] at h
    simp at h

theorem scanDollar_none_exchange (h : scanDollar (x ++ y) = .ok none) (hr : Separated z) :
    scanDollar (x ++ z) = .ok none := by
  by_cases hx : '$' ∈ x
  · obtain ⟨tag, body, rfl, htag⟩ := split_at_dollar hx
    rw [List.append_assoc, List.cons_append, scanDollar_tag htag] at h ⊢
    by_cases ht : isDollarTag tag
    · rw [if_pos ht] at h
      split at h <;> simp at h
    · rw [if_neg ht]
  · by_cases hd : '$' ∈ x ++ z
    · obtain ⟨tag, body, he, htag⟩ := split_at_dollar hd
      -- the separator after `x` is part of the tag
      have hsep : isDollarTag tag = false := by
        cases z with
        | nil => simp [hx] at hd
        | cons c r =>
            have hc : c ∈ separators := separated_cons.1 hr
            have hne : c ≠ '$' := by
              rintro rfl
              simp [separators] at hc
            have hmem : c ∈ tag := by
              have hx' : '$' ∉ x ++ [c] := by simp [hx, hne.symm]
              have := congrArg (List.takeWhile (· ≠ '$')) he
              rw [(takeWhile_dollar tag body htag).1] at this
              rw [← this, List.takeWhile_append_of_pos]
              · simp [hne]
              · intro d hd
                simpa using fun e : d = '$' => hx (e ▸ hd)
            have hword : (c.isAlphanum || c == '_') = false := by
              have : ∀ c ∈ separators, (c.isAlphanum || c == '_') = false := by decide
              exact this c hc
            have : tag.all (fun c => c.isAlphanum || c == '_') = false := by
              rw [List.all_eq_false]
              exact ⟨c, hmem, by simp [hword]⟩
            simp [isDollarTag, this]
      rw [he, scanDollar_tag htag, hsep]
      rfl
    · exact scanDollar_of_notMem hd

/-! ### Tokens -/

theorem leads_point {c : Char} {r : List Char} :
    (c == '.' && r.head?.any Char.isDigit) = leads [(· == '.'), Char.isDigit] (c :: r) := by
  cases r <;> simp [leads]

/-- A point is read together with the first digit after it. -/
theorem leads_of_scanNumber {c : Char} {t r : List Char}
    (hl : leads [(· == '.'), Char.isDigit] (c :: r)) (h : (scanNumber (c :: r)).1 = c :: t)
    (z : List Char) : leads [(· == '.'), Char.isDigit] (c :: (t ++ z)) := by
  cases r with
  | nil => simp [leads] at hl
  | cons d r =>
      obtain ⟨rfl, hd⟩ : c = '.' ∧ d.isDigit := by simpa [leads] using hl
      obtain ⟨t', rfl⟩ : ∃ t', t = d :: t' := by
        simp [scanNumber, scanWhile, scanFraction, hd] at h
        exact ⟨_, h.symm⟩
      simp [leads, hd]

theorem scanPlain_exchange {c : Char} {t : List Char} {kind : TokenKind}
    (h : scanPlain c (t ++ (x ++ y)) = ⟨kind, c :: t, x ++ y⟩) (hr : Separated z) :
    scanPlain c (t ++ (x ++ z)) = ⟨kind, c :: t, x ++ z⟩ := by
  have name : ∀ c ∈ separators, isNameChar c = false := by decide
  have classes : ∀ p ∈ [(· == '.'), Char.isDigit], ∀ c ∈ separators, p c = false := by decide
  unfold scanPlain at h ⊢
  rw [leads_point] at h ⊢
  by_cases hnum : c.isDigit || leads [(· == '.'), Char.isDigit] (c :: (t ++ (x ++ y)))
  · rw [if_pos hnum] at h
    obtain ⟨hkind, htext, hrest⟩ := Scanned.mk.inj h
    have hnum' : c.isDigit || leads [(· == '.'), Char.isDigit] (c :: (t ++ (x ++ z))) := by
      rw [Bool.or_eq_true] at hnum ⊢
      exact hnum.imp_right fun hl => leads_of_scanNumber hl htext _
    have hread := scanNumber_exchange (a := c :: t) (x := x) (Prod.ext htext hrest) hr
    rw [List.cons_append] at hread
    rw [if_pos hnum', plainToken, hread, ← hkind, htext]
  · rw [if_neg hnum] at h
    obtain ⟨hc, hl⟩ := Bool.or_eq_false_iff.1 (Bool.not_eq_true _ ▸ hnum)
    have hnum' := leads_exchange_false (x := c :: (t ++ x)) (y := y) hr classes (by simpa using hl)
    rw [List.cons_append, List.append_assoc] at hnum'
    rw [hc, hnum']
    simp only [Bool.or_self, Bool.false_eq_true, if_false]
    split_ifs at h ⊢
    · obtain ⟨hkind, htext, -⟩ := Scanned.mk.inj h
      obtain rfl : t = [] := by simpa using htext.symm
      rw [← hkind]
      rfl
    · obtain ⟨hkind, htext, hrest⟩ := Scanned.mk.inj h
      have hread := scanWhile_exchange (a := c :: t) (x := x) name (Prod.ext htext hrest) hr
      rw [List.cons_append] at hread
      rw [plainToken, hread, ← hkind, htext]
    · obtain ⟨hkind, htext, -⟩ := Scanned.mk.inj h
      obtain rfl : t = [] := by simpa using htext.symm
      rw [← hkind]
      rfl

theorem quotedToken_eq_ok {opening text rest : List Char} {fault : LexFault}
    {of : String → TokenKind} {kind : TokenKind} {read : Option (Scanned (List Char))} :
    quotedToken opening fault pos of read = .ok ⟨kind, text, rest⟩ ↔
      ∃ v a, read = some ⟨v, a, rest⟩ ∧ of (String.ofList v) = kind ∧ opening ++ a = text := by
  cases read with
  | none => simp [quotedToken]
  | some s =>
      obtain ⟨v, a, r⟩ := s
      simp only [quotedToken, Scanned.map, Scanned.after, Except.ok.injEq, Scanned.mk.injEq,
        Option.some.injEq]
      constructor
      · rintro ⟨hkind, htext, hrest⟩
        exact ⟨v, a, ⟨rfl, rfl, hrest⟩, hkind, htext⟩
      · rintro ⟨v', a', ⟨rfl, rfl, hrest⟩, hkind, htext⟩
        exact ⟨hkind, htext, hrest⟩

/-- A quoted token stays the same when what follows it is exchanged. -/
theorem quotedToken_exchange {opening t : List Char} {fault : LexFault} {of : String → TokenKind}
    {kind : TokenKind} {q : Char} {u : Option (Char → Char)} (hq : goesOn q = true)
    (h : quotedToken opening fault pos of (scanQuoted q u (t ++ (x ++ y))) =
      .ok ⟨kind, opening ++ t, x ++ y⟩) (hr : Separated z) :
    quotedToken opening fault pos of (scanQuoted q u (t ++ (x ++ z))) =
      .ok ⟨kind, opening ++ t, x ++ z⟩ := by
  obtain ⟨v, a, hread, hkind, ha⟩ := quotedToken_eq_ok.1 h
  obtain rfl := List.append_cancel_left ha
  exact quotedToken_eq_ok.2 ⟨v, a, scanQuoted_exchange hq hread hr, hkind, rfl⟩

/-- The token that starts with a dollar sign. -/
def dollarToken (pos : Nat) (r : List Char) : Except LexError (Scanned TokenKind) :=
  match scanDollar r with
  | .ok (some s) => .ok ((s.map fun value => .stringLit (String.ofList value)).after ['$'])
  | .ok none => .ok ⟨.symbol '$', ['$'], r⟩
  | .error fault => .error ⟨fault, pos⟩

theorem dollarToken_exchange {t : List Char} {kind : TokenKind}
    (h : dollarToken pos (t ++ (x ++ y)) = .ok ⟨kind, '$' :: t, x ++ y⟩) (hr : Separated z) :
    dollarToken pos (t ++ (x ++ z)) = .ok ⟨kind, '$' :: t, x ++ z⟩ := by
  unfold dollarToken at h ⊢
  cases hs : scanDollar (t ++ (x ++ y)) with
  | error e => simp [hs] at h
  | ok read =>
      cases read with
      | none =>
          simp only [hs, Except.ok.injEq, Scanned.mk.injEq] at h
          obtain ⟨rfl, ht, -⟩ := h
          obtain rfl : t = [] := by simpa using ht.symm
          have := scanDollar_none_exchange (x := x) (by simpa using hs) hr
          simp [this]
      | some s =>
          obtain ⟨v, a, r⟩ := s
          simp only [hs, Scanned.map, Scanned.after, Except.ok.injEq, Scanned.mk.injEq] at h
          obtain ⟨rfl, ht, rfl⟩ := h
          obtain rfl : a = t := by simpa using ht
          rw [scanDollar_exchange hs]
          simp [Scanned.map, Scanned.after]

theorem goesOn_of_isIdentifierQuote {d : Dialect} {c : Char}
    (h : (rulesOf d).isIdentifierQuote c) : goesOn c = true := by
  have : c = '"' ∨ c = '\x60' := by
    cases d <;> simp [Rules.isIdentifierQuote, rulesOf, mysqlRules, postgresRules] at h <;> tauto
  rcases this with rfl | rfl <;> simp [goesOn]

/-- **A token does not depend on a separated text after it.** -/
theorem scanToken_exchange (d : Dialect) {c : Char} {t : List Char} {kind : TokenKind}
    (h : scanToken (rulesOf d) pos c (t ++ (x ++ y)) = .ok ⟨kind, c :: t, x ++ y⟩)
    (hr : Separated z) :
    scanToken (rulesOf d) pos c (t ++ (x ++ z)) = .ok ⟨kind, c :: t, x ++ z⟩ := by
  have head_ne : ∀ {q}, q ∉ separators → (t ++ (x ++ y)).head? ≠ some q →
      (t ++ (x ++ z)).head? ≠ some q := by
    intro q hq hne
    rw [← List.append_assoc] at hne ⊢
    exact head_ne_exchange hr hq hne
  unfold scanToken at h ⊢
  cases hpunct : punctuation.lookup c with
  | some k =>
      simp only [hpunct, Except.ok.injEq, Scanned.mk.injEq] at h ⊢
      obtain ⟨rfl, ht, -⟩ := h
      obtain rfl : t = [] := by simpa using ht.symm
      simp
  | none =>
      simp only [hpunct] at h ⊢
      by_cases hcolon : c = ':' ∧ (t ++ (x ++ y)).head? = some ':'
      · rw [if_pos hcolon] at h
        simp only [Except.ok.injEq, Scanned.mk.injEq] at h
        obtain ⟨rfl, ht, -⟩ := h
        obtain rfl : t = [':'] := by simpa using ht.symm
        simp [hcolon.1]
      have hcolon' : ¬(c = ':' ∧ (t ++ (x ++ z)).head? = some ':') := by
        rintro ⟨hc, he⟩
        exact head_ne (by decide) (fun he => hcolon ⟨hc, he⟩) he
      rw [if_neg hcolon] at h
      rw [if_neg hcolon']
      by_cases hquote : c = '\''
      · rw [if_pos hquote] at h ⊢
        exact quotedToken_exchange rfl h hr
      rw [if_neg hquote] at h ⊢
      by_cases hdollar : c = '$' ∧ (rulesOf d).dollarQuotes
      · rw [if_pos hdollar] at h ⊢
        obtain ⟨rfl, -⟩ := hdollar
        exact dollarToken_exchange h hr
      rw [if_neg hdollar] at h ⊢
      by_cases hident : (rulesOf d).isIdentifierQuote c
      · rw [if_pos hident] at h ⊢
        exact quotedToken_exchange (goesOn_of_isIdentifierQuote hident) h hr
      rw [if_neg hident] at h ⊢
      by_cases hescape : (rulesOf d).escapeLiterals = true ∧ (c = 'e' ∨ c = 'E') ∧
          (t ++ (x ++ y)).head? = some '\''
      · rw [if_pos hescape] at h
        obtain ⟨v, a, -, -, ha⟩ := quotedToken_eq_ok.1 h
        obtain rfl : '\'' :: a = t := by simpa using ha
        rw [if_pos ⟨hescape.1, hescape.2.1, rfl⟩]
        exact quotedToken_exchange rfl h hr
      have hescape' : ¬((rulesOf d).escapeLiterals = true ∧ (c = 'e' ∨ c = 'E') ∧
          (t ++ (x ++ z)).head? = some '\'') := by
        rintro ⟨hl, hc, he⟩
        exact head_ne (by decide) (fun he => hescape ⟨hl, hc, he⟩) he
      rw [if_neg hescape] at h
      rw [if_neg hescape']
      rw [scanPlain_exchange (Except.ok.inj h) hr]

/-! ### Pieces before another text -/

theorem startsLineComment_eq (cs : List Char) :
    startsLineComment rules cs =
      (leads [(· == '-'), (· == '-')] cs || (rules.hashComments && leads [(· == '#')] cs)) := by
  unfold startsLineComment
  split
  · simp [leads]
  · simp [leads]
  · rename_i hdash hhash
    have h1 : leads [(· == '-'), (· == '-')] cs = false := by
      match cs, hdash with
      | [], _ => rfl
      | [c], _ => simp [leads]
      | c :: e :: r, hdash =>
          simp only [leads, Bool.and_true, Bool.and_eq_false_iff, beq_eq_false_iff_ne]
          by_contra hne
          simp only [not_or, not_not] at hne
          exact hdash r (by rw [hne.1, hne.2])
    have h2 : leads [(· == '#')] cs = false := by
      match cs, hhash with
      | [], _ => rfl
      | c :: r, hhash =>
          simp only [leads, Bool.and_true, beq_eq_false_iff_ne]
          rintro rfl
          exact hhash r rfl
    simp [h1, h2]

theorem scanComment_eq_none {cs : List Char} :
    scanComment rules cs = .ok none ↔
      startsLineComment rules cs = false ∧ leads [(· == '/'), (· == '*')] cs = false := by
  unfold scanComment
  cases hline : startsLineComment rules cs with
  | true => simp
  | false =>
      simp only [Bool.false_eq_true, if_false, true_and]
      split
      · simp only [leads, beq_self_eq_true, Bool.and_self, Bool.true_eq_false, iff_false]
        split <;> simp
      · rename_i hne
        match cs, hne with
        | [], _ => simp [leads]
        | [c], _ => simp [leads]
        | c :: e :: r, hne =>
            simp only [leads, Bool.and_true, true_iff, Bool.and_eq_false_iff, beq_eq_false_iff_ne]
            by_contra h
            simp only [not_or, not_not] at h
            exact hne r (by rw [h.1, h.2])

theorem scanComment_exchange (h : scanComment rules (x ++ y) = .ok none) (hr : Separated z) :
    scanComment rules (x ++ z) = .ok none := by
  rw [scanComment_eq_none, startsLineComment_eq, Bool.or_eq_false_iff, Bool.and_eq_false_iff] at h ⊢
  obtain ⟨⟨hdash, hhash⟩, hslash⟩ := h
  refine ⟨⟨leads_exchange_false hr (by decide) hdash, ?_⟩,
    leads_exchange_false hr (by decide) hslash⟩
  rcases hhash with hhash | hhash
  · exact .inl hhash
  · exact .inr (leads_exchange_false hr (by decide) hhash)

/-- The text after a lexeme can be exchanged. -/
theorem Lexes.exchange {d : Dialect} {kind : TokenKind} {text : List Char}
    (h : Lexes (rulesOf d) kind text (x ++ y)) (hr : Separated z) :
    Lexes (rulesOf d) kind text (x ++ z) := by
  obtain ⟨c, t, rfl, hblank, hcomment, hscan⟩ := h
  refine ⟨c, t, rfl, hblank, ?_, fun pos => scanToken_exchange d (hscan pos) hr⟩
  have := scanComment_exchange (x := c :: (t ++ x)) (y := y) (z := z) (by simpa using hcomment) hr
  simpa using this

/-- The text after a layout can be exchanged from some place on. -/
theorem Layout.Fits.exchange_after {d : Dialect} {ps : Layout}
    (h : Layout.Fits (rulesOf d) (x ++ y) ps) (hr : Separated z) :
    Layout.Fits (rulesOf d) (x ++ z) ps := by
  induction ps with
  | nil => trivial
  | cons p ps ih =>
      cases p with
      | gap text => exact ⟨h.1, ih h.2⟩
      | lexeme kind text =>
          have hlexes := h.1
          rw [← List.append_assoc] at hlexes
          have hread := hlexes.exchange hr
          rw [List.append_assoc] at hread
          exact ⟨hread, ih h.2⟩

/-- The text after a layout can be exchanged. -/
theorem Layout.Fits.exchange {d : Dialect} {ps : Layout} (h : Layout.Fits (rulesOf d) y ps)
    (hr : Separated z) : Layout.Fits (rulesOf d) z ps :=
  Layout.Fits.exchange_after (x := []) h hr

end Schemata.Sql
