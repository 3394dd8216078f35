import LoxLang.Number.Numeral
import LoxLang.Number.Written
import LoxLang.Proofs.Number.Rounding
import Mathlib

set_option autoImplicit false

/-! # Printed numbers read back

The text of a number is a numeral whose value is the number (`value_positional_ofBits`): the decimal
that is chosen for a double lies in the interval of the numbers that round to it, and its digits
spell it. So numbers with the same text are equal (`Number.printed_inj`). -/

namespace LoxLang

/-- The number that a decimal stands for. -/
def Decimal.value (d : Decimal) : ℚ :=
  d.coefficient * 10 ^ d.exponent

namespace Shortest

open Binary64

/-! ## The decimal of a double lies in its interval -/

theorem contains_bounds {s : Scaled} {c : Nat} (h : s.contains c = true) :
    s.low ≤ c * s.unit ∧ c * s.unit ≤ s.high ∧
      (s.closed = false → s.low < c * s.unit ∧ c * s.unit < s.high) := by
  unfold Scaled.contains at h
  dsimp only at h
  split at h
  case isTrue hclosed =>
    rw [Bool.and_eq_true, decide_eq_true_eq, decide_eq_true_eq] at h
    exact ⟨h.1, h.2, fun hopen => absurd (hclosed.symm.trans hopen) (by decide)⟩
  case isFalse =>
    rw [Bool.and_eq_true, decide_eq_true_eq, decide_eq_true_eq] at h
    exact ⟨h.1.le, h.2.le, fun _ => h⟩

theorem holds_of_contains {i : Interval} {p : ℤ} {c : Nat} (h : (i.scale p).contains c = true) :
    i.Holds (Decimal.value ⟨c, p⟩) := by
  have hcommon : (0 : ℚ) < 2 ^ (-i.exponent).toNat * 10 ^ (-p).toNat := by positivity
  -- Both sides of a comparison are multiplied by the powers with negative exponents.
  have hpoint : ((c * (i.scale p).unit : Nat) : ℚ) =
      Decimal.value ⟨c, p⟩ * (2 ^ (-i.exponent).toNat * 10 ^ (-p).toNat) := by
    push_cast [Nat.pow_eq, Decimal.value, Interval.scale]
    rw [← zpow_mul_toNat (b := 10) (by norm_num) p]
    ring
  have hend (n : Nat) : ((n * (Nat.pow 2 i.exponent.toNat * Nat.pow 10 (-p).toNat) : Nat) : ℚ) =
      n * 2 ^ i.exponent * (2 ^ (-i.exponent).toNat * 10 ^ (-p).toNat) := by
    push_cast [Nat.pow_eq]
    rw [← zpow_mul_toNat (b := 2) two_ne_zero i.exponent]
    ring
  obtain ⟨hlow, hhigh, hinside⟩ := contains_bounds h
  rw [← Nat.cast_le (α := ℚ), hpoint] at hlow hhigh
  rw [← Nat.cast_lt (α := ℚ), ← Nat.cast_lt (α := ℚ), hpoint] at hinside
  simp only [Interval.scale, hend, mul_le_mul_iff_left₀ hcommon, mul_lt_mul_iff_left₀ hcommon]
    at hlow hhigh hinside
  exact ⟨hlow, hhigh, hinside⟩

theorem pick_contains {s : Scaled} {c : Nat} (h : s.pick = some c) : s.contains c = true := by
  unfold Scaled.pick at h
  dsimp only at h
  split at h
  case h_1 hlow hhigh =>
    split at h
    case isTrue => cases h; exact hlow
    case isFalse => cases h; exact hhigh
  case h_2 hlow _ => cases h; exact hlow
  case h_3 _ hhigh => cases h; exact hhigh
  case h_4 => cases h

theorem search_holds {i : Interval} {p : ℤ} {steps : Nat} {d : Decimal}
    (h : search i p steps = some d) : i.Holds d.value := by
  induction steps generalizing p with
  | zero => cases h
  | succ steps ih =>
      rw [search] at h
      split at h
      case h_1 c hc =>
        cases h
        exact holds_of_contains (pick_contains hc)
      case h_2 => exact ih h

theorem exact_value (p : Parts) : (exact p).value = p.significand * 2 ^ p.exponent := by
  unfold exact Decimal.value
  split
  case isTrue h =>
    obtain ⟨n, hn⟩ := Int.eq_ofNat_of_zero_le h
    simp [hn, Nat.pow_eq]
  case isFalse h =>
    -- A negative power of two is a power of five, moved behind the point.
    have hexponent : p.exponent = -(((-p.exponent).toNat : Nat) : ℤ) := by omega
    push_cast [Nat.pow_eq]
    generalize (-p.exponent).toNat = n at *
    rw [hexponent, zpow_neg, zpow_neg, zpow_natCast, zpow_natCast, show (10 : ℚ) = 5 * 2 by norm_num,
      mul_pow]
    field_simp

/-- A double lies in its own interval. -/
theorem interval_holds {p : Parts} (hpos : 0 < p.significand) :
    (interval p).Holds (p.significand * 2 ^ p.exponent) := by
  have hunit : (0 : ℚ) < 2 ^ (p.exponent - 2) := by positivity
  have hmid : (p.significand * 2 ^ p.exponent : ℚ) =
      (4 * p.significand : Nat) * 2 ^ (p.exponent - 2) := by
    rw [zpow_sub₀ two_ne_zero]
    push_cast
    ring
  have hinside : ((interval p).low : ℚ) * 2 ^ (p.exponent - 2) < p.significand * 2 ^ p.exponent ∧
      (p.significand * 2 ^ p.exponent : ℚ) < (interval p).high * 2 ^ (p.exponent - 2) := by
    rw [hmid, mul_lt_mul_iff_left₀ hunit, mul_lt_mul_iff_left₀ hunit, Nat.cast_lt, Nat.cast_lt]
    unfold interval
    dsimp only
    split <;> omega
  exact ⟨hinside.1.le, hinside.2.le, fun _ => hinside⟩

theorem ofParts_holds {p : Parts} (hpos : 0 < p.significand) :
    (interval p).Holds (ofParts p).value := by
  unfold ofParts
  cases hfound : search (interval p) (topExponent p) 24 with
  | some d => exact search_holds hfound
  | none =>
      rw [Option.getD_none, exact_value]
      exact interval_holds hpos

end Shortest

/-! ## Digits -/

namespace Numeral

/-- A numeral with the digits before the point and those after it. -/
def join (whole fraction : List Char) : List Char :=
  if fraction = [] then whole else whole ++ '.' :: fraction

theorem split_join {whole : List Char} (fraction : List Char) (hwhole : '.' ∉ whole) :
    split (join whole fraction) = (whole, fraction) := by
  have hpoint : ∀ c ∈ whole, (c != '.') = true := fun c hc =>
    bne_iff_ne.mpr fun heq => hwhole (heq ▸ hc)
  unfold split join
  split
  case isTrue hempty =>
    rw [hempty, List.takeWhile_eq_self_iff.mpr hpoint, List.dropWhile_eq_nil_iff.mpr hpoint]
    rfl
  case isFalse =>
    rw [List.takeWhile_append_of_pos hpoint, List.dropWhile_append_of_pos hpoint]
    simp

theorem value_join {whole fraction : List Char} (hwhole : ∀ c ∈ whole, isAsciiDigit c = true)
    (hfraction : ∀ c ∈ fraction, isAsciiDigit c = true) :
    value (join whole fraction) =
      Binary64.nearest (natFrom 0 (whole ++ fraction)) (Nat.pow 10 fraction.length) := by
  unfold value
  rw [split_join fraction fun hpoint => absurd (hwhole '.' hpoint) (by decide)]
  dsimp only
  rw [if_pos (by simpa using ⟨hwhole, hfraction⟩), natFrom, natFrom, natFrom, List.foldl_append]

end Numeral

namespace Decimal

open Numeral

/-- The digits before and after the point that a decimal is written with. -/
structure Digits (d : Decimal) (whole fraction : List Char) : Prop where
  text : d.positional = join whole fraction
  whole_ne : whole ≠ []
  whole_digits : ∀ c ∈ whole, isAsciiDigit c = true
  fraction_digits : ∀ c ∈ fraction, isAsciiDigit c = true
  number : natFrom 0 (whole ++ fraction) = d.coefficient * Nat.pow 10 d.exponent.toNat
  places : fraction.length = (-d.exponent).toNat

theorem digitsOf_digits {n : Nat} : ∀ c ∈ digitsOf n, isAsciiDigit c = true := by
  intro c hc
  have hdigit := Nat.isDigit_of_mem_toDigits (by decide) (by decide) hc
  simpa [Char.isDigit, isAsciiDigit, UInt32.le_iff_toNat_le] using hdigit

theorem zeros_digits {n : Nat} : ∀ c ∈ List.replicate n '0', isAsciiDigit c = true := by
  intro c hc
  rw [List.eq_of_mem_replicate hc]
  decide

theorem natFrom_zeros (start n : Nat) : natFrom start (List.replicate n '0') = 10 ^ n * start :=
  Nat.ofDigitChars_replicate_zero

theorem natFrom_digitsOf (n : Nat) : natFrom 0 (digitsOf n) = n :=
  Nat.ofDigitChars_ten_toDigits

theorem natFrom_append (start : Nat) (front behind : List Char) :
    natFrom start (front ++ behind) = natFrom (natFrom start front) behind :=
  Nat.ofDigitChars_append start

/-- The layout without a point. -/
theorem digits_whole {d : Decimal} (he : 0 ≤ d.exponent) : ∃ whole, d.Digits whole [] := by
  have hplaces : (-d.exponent).toNat = 0 := by omega
  by_cases hzero : d.coefficient = 0
  · refine ⟨['0'], ?_, List.cons_ne_nil _ _, zeros_digits (n := 1), by simp, ?_, hplaces.symm⟩
    · simp [positional, join, he, hzero]
    · rw [hzero, Nat.zero_mul]
      rfl
  · refine ⟨digitsOf d.coefficient ++ List.replicate d.exponent.toNat '0', ?_, ?_, ?_, by simp, ?_,
      hplaces.symm⟩
    · simp [positional, join, he, hzero]
    · exact List.append_ne_nil_of_left_ne_nil Nat.toDigits_ne_nil _
    · intro c hc
      exact (List.mem_append.mp hc).elim (digitsOf_digits c) (zeros_digits c)
    · rw [List.append_nil, natFrom_append, natFrom_digitsOf, natFrom_zeros, mul_comm]
      rfl

/-- The layout with a point: zeros in front make sure that a digit stands before it. -/
theorem digits_pointed {d : Decimal} (he : d.exponent < 0) :
    ∃ whole fraction, d.Digits whole fraction := by
  have hexponent : d.exponent.toNat = 0 := by omega
  let places := (-d.exponent).toNat
  let digits := digitsOf d.coefficient
  let padded := List.replicate (places + 1 - digits.length) '0' ++ digits
  -- There are more digits than places, so one is left to stand before the point.
  have hlength : places < padded.length := by
    simp only [padded, List.length_append, List.length_replicate]
    omega
  have hpadded : ∀ c ∈ padded, isAsciiDigit c = true := fun c hc =>
    (List.mem_append.mp hc).elim (zeros_digits c) (digitsOf_digits c)
  have hdrop : (padded.drop (padded.length - places)).length = places := by
    rw [List.length_drop]
    omega
  refine ⟨padded.take (padded.length - places), padded.drop (padded.length - places), ?_, ?_, ?_, ?_,
    ?_, hdrop⟩
  · have hne : padded.drop (padded.length - places) ≠ [] := by
      refine List.ne_nil_of_length_pos ?_
      rw [hdrop]
      omega
    rw [join, if_neg hne, positional]
    dsimp only
    rw [if_neg (by omega)]
  · refine List.ne_nil_of_length_pos ?_
    rw [List.length_take]
    omega
  · exact fun c hc => hpadded c (List.mem_of_mem_take hc)
  · exact fun c hc => hpadded c (List.mem_of_mem_drop hc)
  · rw [List.take_append_drop, natFrom_append, natFrom_zeros, Nat.mul_zero, natFrom_digitsOf,
      hexponent]
    exact (Nat.mul_one _).symm

theorem positional_digits (d : Decimal) : ∃ whole fraction, d.Digits whole fraction := by
  rcases lt_or_ge d.exponent 0 with he | he
  · exact digits_pointed he
  · obtain ⟨whole, h⟩ := digits_whole he
    exact ⟨whole, [], h⟩

/-- A decimal is written with digits and a point, and begins with a digit. -/
theorem positional_text (d : Decimal) : ∃ c rest, d.positional = c :: rest ∧ isAsciiDigit c = true ∧
    ∀ x ∈ rest, isAsciiDigit x = true ∨ x = '.' := by
  obtain ⟨whole, fraction, h⟩ := d.positional_digits
  obtain ⟨c, more, rfl⟩ := List.exists_cons_of_ne_nil h.whole_ne
  have hmore : ∀ x ∈ more, isAsciiDigit x = true := fun x hx =>
    h.whole_digits x (List.mem_cons_of_mem _ hx)
  have htext := h.text
  unfold join at htext
  split at htext
  case isTrue =>
    exact ⟨c, more, htext, h.whole_digits c List.mem_cons_self, fun x hx => Or.inl (hmore x hx)⟩
  case isFalse =>
    refine ⟨c, more ++ '.' :: fraction, htext, h.whole_digits c List.mem_cons_self, fun x hx => ?_⟩
    rcases List.mem_append.mp hx with hx | hx
    · exact Or.inl (hmore x hx)
    · exact (List.mem_cons.mp hx).symm.imp_left (h.fraction_digits x)

/-- A decimal reads back as the double nearest to it. -/
theorem value_positional (d : Decimal) : Numeral.value d.positional =
    Binary64.nearest (d.coefficient * Nat.pow 10 d.exponent.toNat)
      (Nat.pow 10 (-d.exponent).toNat) := by
  obtain ⟨whole, fraction, h⟩ := d.positional_digits
  rw [h.text, value_join h.whole_digits h.fraction_digits, h.number, h.places]

end Decimal

/-! ## Doubles -/

open Binary64

theorem Decimal.value_eq_div (d : Decimal) : d.value =
    (d.coefficient * Nat.pow 10 d.exponent.toNat : Nat) /
      (Nat.pow 10 (-d.exponent).toNat : Nat) := by
  push_cast [Nat.pow_eq, Decimal.value]
  rw [← zpow_mul_toNat (b := 10) (by norm_num) d.exponent]
  field_simp

/-- The decimal of a double rounds to the double. -/
theorem nearestBits_ofBits {bits : Nat} (h : bits < infinityBits) :
    nearestBits ((Decimal.ofBits bits).coefficient * Nat.pow 10 (Decimal.ofBits bits).exponent.toNat)
      (Nat.pow 10 (-(Decimal.ofBits bits).exponent).toNat) = bits := by
  unfold Decimal.ofBits
  split
  case isTrue hzero => rw [hzero, Nat.zero_mul]; rfl
  case isFalse hzero =>
    have hproper := Parts.ofBits_proper bits
    have hbits := Parts.bits_ofBits bits
    -- Only zero has no bit in its significand.
    have hpos : 0 < (Parts.ofBits bits).significand := by
      rcases eq_or_lt_of_le hproper.least with hleast | hlong
      · rw [Parts.bits, ← hleast, sub_self, Int.toNat_zero, Nat.zero_mul, Nat.zero_add] at hbits
        omega
      · exact lt_of_lt_of_le (by decide) (hproper.long hlong)
    have hholds := Shortest.ofParts_holds hpos
    rw [Decimal.value_eq_div] at hholds
    have hden : 0 < Nat.pow 10 (-(Shortest.ofParts (Parts.ofBits bits)).exponent).toNat :=
      Nat.pow_pos (by decide)
    rw [Shortest.nearestBits_of_holds hproper hpos (by omega) hden hholds, hbits]

/-- The text of a finite magnitude is a numeral for it. -/
theorem value_positional_ofBits {bits : Nat} (h : bits < infinityBits) :
    Numeral.value (Decimal.ofBits bits).positional = Float.ofBits bits.toUInt64 := by
  rw [Decimal.value_positional, nearest, nearestBits_ofBits h]

/-! ## Bits

A double has the bits that it is made from, unless these are beyond the ones of infinity. The latter
are not numbers, and only one double stands for all of them. -/

section
open Float.Model (Format)
open Float.Model.UnpackedFloat

variable {b : BitVec Format.binary64.numBits}

theorem unpackExponent_toNat : (unpackExponent b).toNat = b.toNat / 2 ^ 52 % 2048 := by
  simp [unpackExponent, Nat.shiftRight_eq_div_pow]

theorem unpackMantissa_toNat : (unpackMantissa b).toNat = b.toNat % 2 ^ 52 := by
  simp [unpackMantissa]

/-- Up to infinity, all bits are those of a double. -/
theorem toBits_ofBits {n : Nat} (h : n ≤ infinityBits) :
    (Float.ofBits n.toUInt64).toBits.toNat = n := by
  have hbits : infinityBits = 2047 * 2 ^ 52 := rfl
  have hsize : n.toUInt64.toNat = n := UInt64.toNat_ofNat_of_lt' (lt_of_le_of_lt h (by decide))
  have hvalid : Format.binary64.Valid n.toUInt64.toBitVec := by
    refine ⟨fun hones hzero => absurd (BitVec.eq_of_toNat_eq ?_) hzero⟩
    have hexponent : n / 2 ^ 52 % 2048 = 2047 := by
      have hlast := congrArg BitVec.toNat hones
      rwa [unpackExponent_toNat, UInt64.toNat_toBitVec, hsize] at hlast
    rw [unpackMantissa_toNat, UInt64.toNat_toBitVec, hsize]
    show n % 2 ^ 52 = 0
    omega
  have htoBits : (Float.ofBits n.toUInt64).toBits = n.toUInt64 :=
    UInt64.toBitVec_inj.mp (pack_unpack_of_valid hvalid)
  rw [htoBits, hsize]

end

namespace Number

/-- A number without a sign, which may be infinite. -/
structure IsMagnitude (x : Float) : Prop where
  sign : isNegative x = false
  size : magnitude x ≤ infinityBits

theorem isMagnitude_ofBits {bits : Nat} (h : bits ≤ infinityBits) :
    magnitude (Float.ofBits bits.toUInt64) = bits ∧ IsMagnitude (Float.ofBits bits.toUInt64) := by
  have hsmall : bits < 2 ^ 63 := lt_of_le_of_lt h (by decide)
  have hmagnitude : magnitude (Float.ofBits bits.toUInt64) = bits := by
    rw [magnitude, toBits_ofBits h, Nat.pow_eq, Nat.mod_eq_of_lt hsmall]
  refine ⟨hmagnitude, ?_, hmagnitude.trans_le h⟩
  rw [isNegative, toBits_ofBits h, Nat.pow_eq, decide_eq_false_iff_not, not_le]
  exact hsmall

/-- A magnitude is the double that is made from its bits. -/
theorem IsMagnitude.ofBits_eq {x : Float} (h : IsMagnitude x) :
    Float.ofBits (magnitude x).toUInt64 = x := by
  have hsmall : x.toBits.toNat < 2 ^ 63 := by
    have hsign := h.sign
    rwa [isNegative, Nat.pow_eq, decide_eq_false_iff_not, not_le] at hsign
  have hbits : magnitude x = x.toBits.toNat := by
    rw [magnitude, Nat.pow_eq, Nat.mod_eq_of_lt hsmall]
  rw [hbits]
  exact (congrArg Float.ofBits UInt64.ofNat_toNat).trans x.ofBits_toBits

/-- The value of a numeral is a magnitude. -/
theorem isMagnitude_value (text : List Char) : IsMagnitude (Numeral.value text) := by
  have hnearest (num den : Nat) : IsMagnitude (nearest num den) :=
    (isMagnitude_ofBits (nearestBits_le num den)).2
  unfold Numeral.value
  dsimp only
  split
  case isTrue => exact hnearest _ _
  case isFalse => exact hnearest _ _

/-- The text of a magnitude is that of infinity, or a numeral for it. -/
theorem IsMagnitude.printed_cases {x : Float} (h : IsMagnitude x) :
    (magnitude x = infinityBits ∧ printed x = "+Inf") ∨
      (magnitude x < infinityBits ∧
        printed x = String.ofList (Decimal.ofBits (magnitude x)).positional) := by
  have hsize := h.size
  unfold printed write
  dsimp only
  rw [h.sign, if_neg (by omega)]
  rcases eq_or_lt_of_le hsize with heq | hlt
  · exact Or.inl ⟨heq, by rw [if_pos heq]; rfl⟩
  · exact Or.inr ⟨hlt, by rw [if_neg hlt.ne]; rfl⟩

/-- Magnitudes with the same text are equal. -/
theorem printed_inj {x y : Float} (hx : IsMagnitude x) (hy : IsMagnitude y)
    (h : printed x = printed y) : x = y := by
  -- Infinity alone has a text that begins with no digit.
  have hdigit (d : Decimal) : String.ofList d.positional ≠ "+Inf" := by
    intro htext
    obtain ⟨c, rest, hd, hc, -⟩ := d.positional_text
    have hchars := congrArg String.toList htext
    rw [hd, String.toList_ofList] at hchars
    rw [(List.cons.inj hchars).1] at hc
    exact absurd hc (by decide)
  rw [← hx.ofBits_eq, ← hy.ofBits_eq]
  rcases hx.printed_cases with ⟨hbx, htx⟩ | ⟨hbx, htx⟩ <;>
    rcases hy.printed_cases with ⟨hby, hty⟩ | ⟨hby, hty⟩ <;> rw [htx, hty] at h
  · rw [hbx, hby]
  · exact absurd h.symm (hdigit _)
  · exact absurd h (hdigit _)
  · rw [← value_positional_ofBits hbx, ← value_positional_ofBits hby, String.ofList_injective h]

end Number

end LoxLang
