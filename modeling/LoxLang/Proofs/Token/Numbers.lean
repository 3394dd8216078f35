import LoxLang.Proofs.Command.Listing
import LoxLang.Proofs.Number.Nearest

set_option autoImplicit false

/-! # What number tokens are worth

The text of a number token is a run of digits, or two runs with a point between them. If all digits
are among `0` to `9`, the token carries the double nearest to the decimal that they spell, infinity if
that is too large (`scan_numbers`). The digits of other scripts spell no decimal. They stand in number
tokens nonetheless, and a token that has one of them carries zero (`scan_arabicThree`). -/

namespace LoxLang

/-! ## The nearest double -/

namespace Binary64

/-- The number that a finite double is. -/
def toRat (x : Float) : ℚ :=
  if isNegative x then -bitsValue (magnitude x) else bitsValue (magnitude x)

/-- A double that is a number, not infinite. -/
def IsFinite (x : Float) : Prop :=
  magnitude x < infinityBits

/-- The double that a number which is not negative rounds to. -/
structure IsNearest (q : ℚ) (x : Float) : Prop where
  isMagnitude : Number.IsMagnitude x
  overflow : magnitude x = infinityBits ↔ overflowFrom ≤ q
  /-- No double is nearer. -/
  closest (y : Float) : IsFinite x → IsFinite y → |toRat x - q| ≤ |toRat y - q|
  /-- Of two that are equally near it is the even one. -/
  even (y : Float) : IsFinite x → IsFinite y → toRat y ≠ toRat x →
    |toRat x - q| = |toRat y - q| → magnitude x % 2 = 0

theorem toRat_positive {y : Float} (h : isNegative y = false) :
    toRat y = bitsValue (magnitude y) := by
  rw [toRat, h]
  rfl

theorem distance_negative {y : Float} (h : isNegative y = true) {q : ℚ} (hq : 0 ≤ q) :
    |toRat y - q| = bitsValue (magnitude y) + q := by
  have hsize := bitsValue_nonneg (magnitude y)
  have hrat : toRat y = -bitsValue (magnitude y) := by
    rw [toRat, h]
    rfl
  rw [hrat, abs_of_nonpos (by linarith)]
  ring

/-- A quotient is rounded to the nearest double. Those below zero are farther away than zero is. -/
theorem nearest_isNearest (num : Nat) {den : Nat} (hden : 0 < den) :
    IsNearest (num / den) (nearest num den) := by
  obtain ⟨hmagnitude, hnearest⟩ := Number.isMagnitude_ofBits (nearestBits_le num den)
  have hvalue : toRat (nearest num den) = bitsValue (nearestBits num den) :=
    (toRat_positive hnearest.sign).trans (congrArg bitsValue hmagnitude)
  have hquotient : (0 : ℚ) ≤ num / den := by positivity
  have hzero := (nearestBits_closest num hden (Nat.zero_le infinityBits)).1
  rw [bitsValue_zero, zero_sub, abs_neg, abs_of_nonneg hquotient] at hzero
  refine ⟨hnearest, ?_, fun y _ hy => ?_, fun y _ hy => ?_⟩
  · rw [nearest, hmagnitude]
    exact nearestBits_overflow num hden
  · have hclosest := (nearestBits_closest num hden (le_of_lt hy)).1
    rw [hvalue]
    cases hsign : isNegative y with
    | false => rwa [toRat_positive hsign]
    | true =>
        have hsize := bitsValue_nonneg (magnitude y)
        rw [distance_negative hsign hquotient]
        linarith
  · have heven := (nearestBits_closest num hden (le_of_lt hy)).2
    rw [hvalue, nearest, hmagnitude]
    cases hsign : isNegative y with
    | false => rwa [toRat_positive hsign]
    | true =>
        intro hne heq
        -- Zero is at least as near, so the number with the sign is zero.
        have hsize := bitsValue_nonneg (magnitude y)
        rw [distance_negative hsign hquotient] at heq
        have hy0 : bitsValue (magnitude y) = 0 := by linarith
        have hrat : toRat y = 0 := by
          rw [toRat, hsign, hy0]
          exact neg_zero
        rw [hrat] at hne
        rw [hy0, zero_add] at heq
        rw [hy0, zero_sub, abs_neg, abs_of_nonneg hquotient] at heven
        exact heven hne heq

end Binary64

/-! ## Decimals -/

namespace Numeral

/-- The value of one of the digits `0` to `9`. -/
def digit (c : Char) : Nat :=
  c.toNat - '0'.toNat

/-- The number that the digits before the point spell. -/
def wholeValue : List Char → Nat
  | [] => 0
  | c :: rest => digit c * 10 ^ rest.length + wholeValue rest

/-- The number that the digits behind the point spell. -/
def fractionValue : List Char → ℚ
  | [] => 0
  | c :: rest => (digit c + fractionValue rest) / 10

/-- The number that a numeral spells. -/
def decimal (whole fraction : List Char) : ℚ :=
  wholeValue whole + fractionValue fraction

theorem natFrom_eq (start : Nat) (digits : List Char) :
    natFrom start digits = start * 10 ^ digits.length + wholeValue digits := by
  induction digits generalizing start with
  | nil => simp [natFrom, wholeValue]
  | cons c rest ih =>
      have hstep : natFrom start (c :: rest) = natFrom (10 * start + digit c) rest := rfl
      rw [hstep, ih, wholeValue, List.length_cons, pow_succ]
      ring

theorem fractionValue_eq (digits : List Char) :
    fractionValue digits = wholeValue digits / 10 ^ digits.length := by
  induction digits with
  | nil => simp [fractionValue, wholeValue]
  | cons c rest ih =>
      rw [fractionValue, wholeValue, ih, List.length_cons, pow_succ]
      push_cast
      field_simp

/-- A numeral spells a quotient of its digits and a power of ten. -/
theorem decimal_eq (whole fraction : List Char) :
    decimal whole fraction =
      (natFrom 0 (whole ++ fraction) : ℚ) / (Nat.pow 10 fraction.length : Nat) := by
  have happend : natFrom 0 (whole ++ fraction) = natFrom (natFrom 0 whole) fraction :=
    Decimal.natFrom_append 0 whole fraction
  rw [happend, natFrom_eq, natFrom_eq 0 whole, decimal, fractionValue_eq]
  push_cast [Nat.pow_eq]
  field_simp
  ring

/-- A text of digits: those of `whole`, and if there are any in `fraction`, a point and these. -/
structure Spells (isDigit : Char → Bool) (text whole fraction : List Char) : Prop where
  text_eq : text = join whole fraction
  whole_ne : whole ≠ []
  digits : ∀ c ∈ whole ++ fraction, isDigit c = true

theorem Spells.first {isDigit : Char → Bool} {text whole fraction : List Char}
    (h : Spells isDigit text whole fraction) : ∃ c tail, text = c :: tail ∧ isDigit c = true := by
  obtain ⟨c, more, rfl⟩ := List.exists_cons_of_ne_nil h.whole_ne
  have hc : isDigit c = true := h.digits c List.mem_cons_self
  rw [h.text_eq, join]
  split
  case isTrue => exact ⟨c, more, rfl, hc⟩
  case isFalse => exact ⟨c, _, rfl, hc⟩

theorem spells_iff_lexeme {text : List Char} :
    (∃ whole fraction, Spells isDigit text whole fraction) ↔ Lexeme .number text := by
  constructor
  · rintro ⟨whole, fraction, rfl, hne, hdigits⟩
    obtain ⟨c, tail, rfl⟩ := List.exists_cons_of_ne_nil hne
    rw [List.forall_mem_append, List.forall_mem_cons] at hdigits
    obtain ⟨⟨hc, htail⟩, hfraction⟩ := hdigits
    cases fraction with
    | nil => exact .integer hc htail
    | cons d more =>
        rw [List.forall_mem_cons] at hfraction
        exact .fraction hc htail hfraction.1 hfraction.2
  · intro h
    rcases lexeme_numeral h with ⟨c, tail, rfl, hc, htail⟩ |
      ⟨c, tail, d, more, rfl, hc, htail, hd, hmore⟩
    · refine ⟨c :: tail, [], rfl, List.cons_ne_nil _ _, ?_⟩
      rw [List.append_nil, List.forall_mem_cons]
      exact ⟨hc, htail⟩
    · refine ⟨c :: tail, d :: more, rfl, List.cons_ne_nil _ _, ?_⟩
      rw [List.forall_mem_append, List.forall_mem_cons, List.forall_mem_cons]
      exact ⟨⟨hc, htail⟩, hd, hmore⟩

/-- The digits `0` to `9` are worth what they spell. -/
theorem value_isNearest {text whole fraction : List Char}
    (h : Spells isAsciiDigit text whole fraction) :
    Binary64.IsNearest (decimal whole fraction) (value text) := by
  have hdigits := h.digits
  rw [List.forall_mem_append] at hdigits
  rw [h.text_eq, value_join hdigits.1 hdigits.2, decimal_eq]
  exact Binary64.nearest_isNearest _ (Nat.pow_pos (by decide))

theorem Spells.split_eq {text whole fraction : List Char} (h : Spells isDigit text whole fraction) :
    split text = (whole, fraction) := by
  rw [h.text_eq]
  apply split_join
  intro hpoint
  exact absurd (h.digits '.' (List.mem_append_left _ hpoint)) (by decide)

/-- With other digits among them they are worth nothing. -/
theorem value_foreign {text whole fraction : List Char} (h : Spells isDigit text whole fraction)
    (hforeign : ¬ Spells isAsciiDigit text whole fraction) : value text = Float.ofBits 0 := by
  have hsome : ¬ (whole.all isAsciiDigit && fraction.all isAsciiDigit) = true := by
    rw [← List.all_append, List.all_eq_true]
    exact fun hall => hforeign ⟨h.text_eq, h.whole_ne, hall⟩
  rw [value, h.split_eq]
  dsimp only
  rw [if_neg hsome]
  rfl

end Numeral

/-! ## Number tokens -/

/-- A token alone is read as what it is. -/
theorem scan_lexeme {kind : Kind} {c : Char} {tail : List Char} (h : Lexeme kind (c :: tail)) :
    ∃ line : Nat, scan (c :: tail) =
      ⟨[⟨kind, String.ofList (c :: tail), literalOf kind (c :: tail), line⟩, Scan.endToken line],
        []⟩ := by
  refine ⟨1 + lineFeeds (c :: tail), ?_⟩
  rw [scan, pieces_cons, Piece.first_lexeme h, List.drop_length, pieces]
  rfl

/-- What a number token is: the digits of its text, and the value that it carries. -/
structure Token.Worth (t : Token) (whole fraction : List Char) (x : Float) : Prop where
  text : Numeral.Spells isDigit t.lexeme.toList whole fraction
  literal : t.literal = .number x
  nearest : Numeral.Spells isAsciiDigit t.lexeme.toList whole fraction →
    Binary64.IsNearest (Numeral.decimal whole fraction) x
  /-- Digits of other scripts are not read. -/
  foreign : ¬ Numeral.Spells isAsciiDigit t.lexeme.toList whole fraction → x = Float.ofBits 0

theorem Token.Scanned.worth {t : Token} (h : t.Scanned) (hkind : t.kind = .number) :
    ∃ whole fraction x, t.Worth whole fraction x := by
  have hlexeme := h.lexeme
  rw [hkind] at hlexeme
  obtain ⟨whole, fraction, htext⟩ := Numeral.spells_iff_lexeme.mpr hlexeme
  refine ⟨whole, fraction, Numeral.value t.lexeme.toList, htext, ?_, Numeral.value_isNearest,
    Numeral.value_foreign htext⟩
  rw [h.literal, hkind]
  rfl

/-- In every source, a number token carries the value that its digits spell. A source of digits alone
is one number token, and nothing is reported about it. -/
theorem scan_numbers (source : List Char) :
    (∀ token ∈ (scan source).tokens, token.kind = .number →
      ∃ whole fraction x, token.Worth whole fraction x) ∧
    ∀ whole fraction, Numeral.Spells isDigit source whole fraction →
      ∃ token eof, scan source = ⟨[token, eof], []⟩ ∧ token.kind = .number ∧
        token.lexeme = String.ofList source ∧ eof.kind = .endOfInput := by
  constructor
  · intro token htoken hkind
    refine (scanned_of_mem htoken ?_).worth hkind
    rw [hkind]
    decide
  · intro whole fraction htext
    obtain ⟨c, tail, rfl, -⟩ := htext.first
    obtain ⟨line, hscan⟩ := scan_lexeme (Numeral.spells_iff_lexeme.mp ⟨whole, fraction, htext⟩)
    exact ⟨_, _, hscan, rfl, rfl, rfl⟩

/-- Zeros behind the last digit do not count. -/
theorem scan_numbers_half : ∃ token ∈ (scan "2.50".toList).tokens, token.kind = .number ∧
    ∃ x, token.literal = .number x ∧ Binary64.IsNearest (5 / 2) x := by
  have hdigits : Numeral.Spells isDigit "2.50".toList ['2'] ['5', '0'] :=
    ⟨rfl, by decide, List.all_eq_true.mp (by decide)⟩
  obtain ⟨token, eof, hscan, hkind, hlexeme, -⟩ := (scan_numbers _).2 _ _ hdigits
  have htoken : token ∈ (scan "2.50".toList).tokens := by
    rw [hscan]
    exact List.mem_cons_self
  obtain ⟨whole, fraction, x, hworth⟩ := (scan_numbers _).1 token htoken hkind
  have hsplit := hworth.text.split_eq
  rw [hlexeme, String.toList_ofList, hdigits.split_eq] at hsplit
  cases hsplit
  refine ⟨token, htoken, hkind, x, hworth.literal, ?_⟩
  have hvalue : Numeral.decimal ['2'] ['5', '0'] = 5 / 2 := by
    have htwo : Numeral.digit '2' = 2 := rfl
    have hfive : Numeral.digit '5' = 5 := rfl
    have hzero : Numeral.digit '0' = 0 := rfl
    norm_num [Numeral.decimal, Numeral.wholeValue, Numeral.fractionValue, htwo, hfive, hzero]
  rw [← hvalue]
  apply hworth.nearest
  exact ⟨hworth.text.text_eq, by decide, List.all_eq_true.mp (by decide)⟩

/-- A digit of another script makes a number token, which no decimal can be read from. -/
theorem scan_arabicThree : ∃ token ∈ (scan ['٣']).tokens, token.kind = .number ∧
    token.literal = .number (Float.ofBits 0) ∧
      ¬ ∃ whole fraction, Numeral.Spells isAsciiDigit token.lexeme.toList whole fraction := by
  have hdigits : Numeral.Spells isDigit ['٣'] ['٣'] [] :=
    ⟨rfl, by decide, List.all_eq_true.mp (by decide)⟩
  have hnone : ¬ ∃ whole fraction, Numeral.Spells isAsciiDigit ['٣'] whole fraction := by
    rintro ⟨whole, fraction, hascii⟩
    obtain ⟨c, tail, htext, hc⟩ := hascii.first
    cases htext
    exact absurd hc (by decide)
  obtain ⟨line, hscan⟩ := scan_lexeme (Numeral.spells_iff_lexeme.mp ⟨_, _, hdigits⟩)
  rw [hscan]
  refine ⟨_, List.mem_cons_self, rfl, ?_, ?_⟩
  · have hvalue := Numeral.value_foreign hdigits fun hascii => hnone ⟨_, _, hascii⟩
    exact congrArg Literal.number hvalue
  · rw [String.toList_ofList]
    exact hnone

end LoxLang
