import LoxLang.Number.Shortest
import Mathlib.Algebra.Order.Field.Power
import Mathlib.Data.Rat.Cast.Order
import Mathlib.Tactic.FieldSimp
import Mathlib.Tactic.Linarith
import Mathlib.Tactic.Positivity
import Mathlib.Tactic.Ring

set_option autoImplicit false

/-! # Which quotients round to a double

`Shortest.interval` says which numbers round to a given double. Here that is put to the test: every
quotient in the interval rounds to the double it belongs to (`nearestBits_of_holds`). The intervals
and the quotients are made of natural numbers and of powers on one side or the other of a comparison,
so they are compared as rational numbers, where a power with a negative exponent is a number like any
other. -/

namespace LoxLang.Binary64

/-! ## Powers on both sides

An integer exponent is split into two natural ones, of which one is zero. -/

theorem zpow_mul_toNat {b : ℚ} (hb : b ≠ 0) (e : ℤ) : b ^ e * b ^ (-e).toNat = b ^ e.toNat := by
  rw [← zpow_natCast, ← zpow_natCast, ← zpow_add₀ hb]
  congr 1
  omega

/-- A quotient in units of `2 ^ e`. -/
theorem scaled_eq {num den : Nat} (hden : 0 < den) (e : ℤ) :
    ((num * Nat.pow 2 (-e).toNat : Nat) : ℚ) / (den * Nat.pow 2 e.toNat : Nat) =
      num / den / 2 ^ e := by
  push_cast [Nat.pow_eq]
  rw [← zpow_mul_toNat two_ne_zero e]
  have hden' : (den : ℚ) ≠ 0 := by positivity
  field_simp

/-! ## Rounding to an integer -/

/-- The integer that a quotient rounds to is the one within half a unit of it. A quotient half-way
between two integers is within half a unit of both, and rounds to the even one. -/
theorem roundHalfEven_eq {num den m : Nat} (hden : 0 < den) (hlow : (m : ℚ) - 1 / 2 ≤ num / den)
    (hhigh : (num : ℚ) / den ≤ m + 1 / 2)
    (htie : m % 2 = 1 → (m : ℚ) - 1 / 2 < num / den ∧ (num : ℚ) / den < m + 1 / 2) :
    roundHalfEven num den = m := by
  have hpos : (0 : ℚ) < den := by exact_mod_cast hden
  -- Multiplied out, the bounds are about natural numbers, as the rounding is.
  have hsplit : den * (num / den) + num % den = num := Nat.div_add_mod num den
  have hrest : num % den < den := Nat.mod_lt _ hden
  have hlow' : 2 * (m * den) ≤ 2 * num + den := by
    rw [le_div_iff₀ hpos] at hlow
    have h : (2 * (m * den) : ℚ) ≤ 2 * num + den := by linarith
    exact_mod_cast h
  have hhigh' : 2 * num ≤ 2 * (m * den) + den := by
    rw [div_le_iff₀ hpos] at hhigh
    have h : (2 * num : ℚ) ≤ 2 * (m * den) + den := by linarith
    exact_mod_cast h
  have htie' : m % 2 = 1 → 2 * (m * den) < 2 * num + den ∧ 2 * num < 2 * (m * den) + den := by
    intro hodd
    obtain ⟨h, h'⟩ := htie hodd
    rw [lt_div_iff₀ hpos] at h
    rw [div_lt_iff₀ hpos] at h'
    have g : (2 * (m * den) : ℚ) < 2 * num + den := by linarith
    have g' : (2 * num : ℚ) < 2 * (m * den) + den := by linarith
    exact ⟨by exact_mod_cast g, by exact_mod_cast g'⟩
  unfold roundHalfEven
  dsimp only
  generalize num / den = whole at hsplit ⊢
  generalize num % den = rest at hsplit hrest ⊢
  subst hsplit
  have hcases : m = whole ∨ m = whole + 1 := by
    have hge : whole ≤ m := by
      by_contra hlt
      have := Nat.mul_le_mul_left den (show m + 1 ≤ whole by omega)
      nlinarith
    have hle : m ≤ whole + 1 := by
      by_contra hgt
      have := Nat.mul_le_mul_left den (show whole + 2 ≤ m by omega)
      nlinarith
    omega
  rcases hcases with rfl | rfl
  · rw [if_pos]
    rw [mul_comm m den] at *
    simp only [Bool.or_eq_true, decide_eq_true_eq, Bool.and_eq_true, beq_iff_eq]
    omega
  · rw [if_neg]
    rw [mul_comm (whole + 1) den, Nat.mul_add] at *
    simp only [Bool.or_eq_true, decide_eq_true_eq, Bool.and_eq_true, beq_iff_eq]
    omega

/-! ## The power of two below -/

theorem floorLog2_spec {num den : Nat} (hnum : 0 < num) (hden : 0 < den) :
    (2 : ℚ) ^ floorLog2 num den ≤ num / den ∧ (num : ℚ) / den < 2 ^ (floorLog2 num den + 1) := by
  have hpos : (0 : ℚ) < den := by exact_mod_cast hden
  have bounds {n : Nat} (h : 0 < n) :
      (2 : ℚ) ^ (n.log2 : ℤ) ≤ n ∧ (n : ℚ) < 2 ^ ((n.log2 : ℤ) + 1) := by
    refine ⟨?_, ?_⟩
    · rw [zpow_natCast]
      exact_mod_cast Nat.log2_self_le h.ne'
    · rw [← Nat.cast_succ, zpow_natCast]
      exact_mod_cast Nat.lt_log2_self
  obtain ⟨hnumLow, hnumHigh⟩ := bounds hnum
  obtain ⟨hdenLow, hdenHigh⟩ := bounds hden
  -- The lengths alone give the power up to one, and the comparison decides.
  generalize hguess : (num.log2 : ℤ) - (den.log2 : ℤ) = guess
  have hhigh : (num : ℚ) / den < 2 ^ (guess + 1) := by
    rw [div_lt_iff₀ hpos]
    calc (num : ℚ) < 2 ^ ((num.log2 : ℤ) + 1) := hnumHigh
      _ = 2 ^ (guess + 1) * 2 ^ (den.log2 : ℤ) := by
        rw [← zpow_add₀ two_ne_zero]
        congr 1
        omega
      _ ≤ 2 ^ (guess + 1) * den := by gcongr
  have hlow : (2 : ℚ) ^ (guess - 1) ≤ num / den := by
    rw [le_div_iff₀ hpos]
    calc (2 : ℚ) ^ (guess - 1) * den ≤ 2 ^ (guess - 1) * 2 ^ ((den.log2 : ℤ) + 1) := by gcongr
      _ = 2 ^ (num.log2 : ℤ) := by
        rw [← zpow_add₀ two_ne_zero]
        congr 1
        omega
      _ ≤ num := hnumLow
  have hguessed : den * Nat.pow 2 guess.toNat ≤ num * Nat.pow 2 (-guess).toNat ↔
      (2 : ℚ) ^ guess ≤ num / den := by
    have hunit : (0 : ℚ) < (den * Nat.pow 2 guess.toNat : Nat) := by
      push_cast [Nat.pow_eq]
      positivity
    rw [← Nat.cast_le (α := ℚ), ← one_le_div hunit, scaled_eq hden, one_le_div (by positivity)]
  unfold floorLog2
  simp only [hguess, hguessed]
  split
  case isTrue h => exact ⟨h, hhigh⟩
  case isFalse h =>
    rw [sub_add_cancel]
    exact ⟨hlow, lt_of_not_ge h⟩

theorem floorLog2_le {num den : Nat} {k : ℤ} (hnum : 0 < num) (hden : 0 < den)
    (h : (num : ℚ) / den < 2 ^ (k + 1)) : floorLog2 num den ≤ k := by
  have hlt : (2 : ℚ) ^ floorLog2 num den < 2 ^ (k + 1) := (floorLog2_spec hnum hden).1.trans_lt h
  exact Int.lt_add_one_iff.mp ((zpow_lt_zpow_iff_right₀ one_lt_two).mp hlt)

theorem le_floorLog2 {num den : Nat} {k : ℤ} (hnum : 0 < num) (hden : 0 < den)
    (h : (2 : ℚ) ^ k ≤ num / den) : k ≤ floorLog2 num den := by
  have hlt : (2 : ℚ) ^ k < 2 ^ (floorLog2 num den + 1) := h.trans_lt (floorLog2_spec hnum hden).2
  exact Int.lt_add_one_iff.mp ((zpow_lt_zpow_iff_right₀ one_lt_two).mp hlt)

/-! ## The parts of a double -/

/-- The significand fits, and is as long as it can be unless the exponent is the least one. -/
structure Parts.Proper (p : Parts) : Prop where
  fits : p.significand < Nat.pow 2 53
  least : minExponent ≤ p.exponent
  long : minExponent < p.exponent → Nat.pow 2 52 ≤ p.significand

/-- The bits of a double, put together again. -/
def Parts.bits (p : Parts) : Nat :=
  (p.exponent - minExponent).toNat * Nat.pow 2 52 + p.significand

theorem Parts.ofBits_proper (bits : Nat) : (Parts.ofBits bits).Proper := by
  have hfraction : bits % Nat.pow 2 52 < Nat.pow 2 52 := Nat.mod_lt _ (by decide)
  have hdouble : Nat.pow 2 53 = 2 * Nat.pow 2 52 := rfl
  unfold Parts.ofBits
  dsimp only
  split
  · exact ⟨by dsimp only; omega, le_refl _, fun h => absurd h (lt_irrefl _)⟩
  · exact ⟨by dsimp only; omega, by dsimp only; omega, fun _ => Nat.le_add_right _ _⟩

theorem Parts.bits_ofBits (bits : Nat) : (Parts.ofBits bits).bits = bits := by
  have hsplit : Nat.pow 2 52 * (bits / Nat.pow 2 52) + bits % Nat.pow 2 52 = bits :=
    Nat.div_add_mod _ _
  unfold Parts.bits Parts.ofBits
  dsimp only
  split
  case h_1 hzero =>
    rw [hzero] at hsplit
    simpa using hsplit
  case h_2 k hk =>
    have hexponent : (minExponent + (k : ℤ) - minExponent).toNat = k := by omega
    rw [hk] at hsplit
    rw [hexponent, ← Nat.add_assoc, ← Nat.succ_mul, mul_comm]
    exact hsplit

/-! ## Rounding to a double -/

theorem nearestBits_le (num den : Nat) : nearestBits num den ≤ infinityBits := by
  unfold nearestBits
  split
  case isTrue => exact Nat.zero_le _
  case isFalse => exact Nat.min_le_right _ _

/-- The double is found on the grid of the quotient. -/
theorem nearestBits_eq {num den s : Nat} {e : ℤ} (hnum : 0 < num) (hden : 0 < den)
    (hgrid : max (floorLog2 num den - 52) minExponent = e)
    (hlow : (s : ℚ) - 1 / 2 ≤ num / den / 2 ^ e) (hhigh : (num : ℚ) / den / 2 ^ e ≤ s + 1 / 2)
    (htie : s % 2 = 1 → (s : ℚ) - 1 / 2 < num / den / 2 ^ e ∧ (num : ℚ) / den / 2 ^ e < s + 1 / 2) :
    nearestBits num den = min ((e - minExponent).toNat * Nat.pow 2 52 + s) infinityBits := by
  have hunit : 0 < den * Nat.pow 2 e.toNat := Nat.mul_pos hden (Nat.pow_pos two_pos)
  rw [← scaled_eq hden] at hlow hhigh htie
  unfold nearestBits
  rw [if_neg hnum.ne']
  dsimp only
  rw [hgrid, roundHalfEven_eq hunit hlow hhigh htie]

end LoxLang.Binary64

namespace LoxLang.Shortest

open Binary64

/-- The numbers of an interval. -/
structure Interval.Holds (i : Interval) (x : ℚ) : Prop where
  low : i.low * (2 : ℚ) ^ i.exponent ≤ x
  high : x ≤ i.high * (2 : ℚ) ^ i.exponent
  inside : i.closed = false → i.low * (2 : ℚ) ^ i.exponent < x ∧ x < i.high * (2 : ℚ) ^ i.exponent

/-- The numbers that round to a double, in units of its last place. -/
structure Near (p : Parts) (y : ℚ) : Prop where
  low : (p.significand : ℚ) - 1 / 2 ≤ y
  high : y ≤ p.significand + 1 / 2
  inside : p.significand % 2 = 1 → (p.significand : ℚ) - 1 / 2 < y ∧ y < p.significand + 1 / 2
  narrow : p.narrowBelow = true → (p.significand : ℚ) - 1 / 4 ≤ y

theorem Interval.Holds.near {p : Parts} {x : ℚ} (hpos : 0 < p.significand)
    (h : (interval p).Holds x) : Near p (x / 2 ^ p.exponent) := by
  have hunit : (0 : ℚ) < 2 ^ p.exponent := by positivity
  have hquarter : (2 : ℚ) ^ (p.exponent - 2) = 2 ^ p.exponent / 4 := by
    rw [zpow_sub₀ two_ne_zero]
    norm_num
  -- Both ends in units of the last place.
  have hends (n : ℕ) : n * (2 : ℚ) ^ (p.exponent - 2) = n / 4 * 2 ^ p.exponent := by
    rw [hquarter]
    ring
  obtain ⟨hlow, hhigh, hinside⟩ := h
  simp only [interval, hends, ← le_div_iff₀ hunit, ← div_le_iff₀ hunit, ← lt_div_iff₀ hunit,
    ← div_lt_iff₀ hunit] at hlow hhigh hinside
  generalize x / 2 ^ p.exponent = y at hlow hhigh hinside ⊢
  -- The subtraction of natural numbers in the lower end does not stop at zero.
  have hgap : (if p.narrowBelow then 1 else 2) ≤ 4 * p.significand := by split <;> omega
  rw [Nat.cast_sub hgap] at hlow hinside
  push_cast at hlow hhigh hinside
  refine ⟨?_, by linarith, fun hodd => ?_, fun hnarrow => ?_⟩
  · split at hlow <;> linarith
  · obtain ⟨hlow', hhigh'⟩ := hinside (by simp [hodd])
    refine ⟨?_, by linarith⟩
    split at hlow' <;> linarith
  · rw [if_pos hnarrow] at hlow
    linarith

section
variable {p : Parts} {num den : Nat} (hp : p.Proper) (hfinite : p.bits ≤ infinityBits)
  (hnum : 0 < num) (hden : 0 < den) (h : Near p ((num : ℚ) / den / 2 ^ p.exponent))

include hp hfinite hnum hden h

/-- A quotient that has the grid of the double: it is not less than the power of two that the
significand begins with, or the grid is the finest one. -/
theorem nearestBits_sameGrid
    (hreach : p.exponent = minExponent ∨ (2 : ℚ) ^ 52 ≤ num / den / 2 ^ p.exponent) :
    nearestBits num den = p.bits := by
  have hunit : (0 : ℚ) < 2 ^ p.exponent := by positivity
  have hfits : (p.significand : ℚ) + 1 ≤ 2 ^ 53 := by exact_mod_cast hp.fits
  -- Half a unit above the greatest significand is still below the next power of two.
  have hbelow : (num : ℚ) / den < 2 ^ (p.exponent + 52 + 1) := by
    rw [add_assoc, zpow_add₀ two_ne_zero, mul_comm, ← div_lt_iff₀ hunit]
    have := h.high
    norm_num at hfits ⊢
    linarith
  have hupper : floorLog2 num den ≤ p.exponent + 52 := floorLog2_le hnum hden hbelow
  have hgrid : max (floorLog2 num den - 52) minExponent = p.exponent := by
    rcases hreach with hleast | hreach
    · omega
    · rw [le_div_iff₀ hunit, ← zpow_natCast, ← zpow_add₀ two_ne_zero] at hreach
      have hlower := le_floorLog2 hnum hden hreach
      have hleast := hp.least
      omega
  rw [nearestBits_eq hnum hden hgrid h.low h.high h.inside]
  exact min_eq_left hfinite

/-- A quotient with a finer grid. It lies just below a power of two, and is rounded up to it. -/
theorem nearestBits_finerGrid (hexponent : minExponent < p.exponent)
    (hshort : (num : ℚ) / den / 2 ^ p.exponent < 2 ^ 52) : nearestBits num den = p.bits := by
  have hunit : (0 : ℚ) < 2 ^ p.exponent := by positivity
  -- Only the least significand of its length has numbers below that power in its interval.
  have hpower : p.significand = Nat.pow 2 52 := by
    refine le_antisymm ?_ (hp.long hexponent)
    have hlt : (p.significand : ℚ) < 2 ^ 52 + 1 := by
      have := h.low
      linarith
    exact Nat.lt_add_one_iff.mp (by exact_mod_cast hlt)
  have hnear : (2 : ℚ) ^ 52 - 1 / 4 ≤ num / den / 2 ^ p.exponent := by
    have hnarrow := h.narrow (by simp [Parts.narrowBelow, hpower, hexponent])
    rw [hpower] at hnarrow
    exact_mod_cast hnarrow
  have hhalf : (num : ℚ) / den / 2 ^ (p.exponent - 1) = 2 * (num / den / 2 ^ p.exponent) := by
    rw [zpow_sub_one₀ two_ne_zero]
    field_simp
  have hgrid : max (floorLog2 num den - 52) minExponent = p.exponent - 1 := by
    have hlow : (2 : ℚ) ^ (p.exponent + 51) ≤ num / den := by
      rw [zpow_add₀ two_ne_zero, mul_comm, ← le_div_iff₀ hunit]
      norm_num at hnear ⊢
      linarith
    have hhigh : (num : ℚ) / den < 2 ^ (p.exponent + 51 + 1) := by
      rw [add_assoc, zpow_add₀ two_ne_zero, mul_comm, ← div_lt_iff₀ hunit]
      norm_num at hshort ⊢
      exact hshort
    have hlower := le_floorLog2 hnum hden hlow
    have hupper := floorLog2_le hnum hden hhigh
    omega
  -- The significand `2 ^ 53` carries into the exponent.
  have hbits : (p.exponent - 1 - minExponent).toNat * Nat.pow 2 52 + Nat.pow 2 53 = p.bits := by
    have hcarry : (p.exponent - minExponent).toNat = (p.exponent - 1 - minExponent).toNat + 1 := by
      omega
    rw [Parts.bits, hpower, hcarry, Nat.succ_mul, Nat.add_assoc]
  have hcast : ((Nat.pow 2 53 : Nat) : ℚ) = 2 * 2 ^ 52 := by norm_num
  rw [nearestBits_eq (s := Nat.pow 2 53) hnum hden hgrid, hbits]
  · exact min_eq_left hfinite
  · rw [hhalf, hcast]
    linarith
  · rw [hhalf, hcast]
    linarith
  · exact fun hodd => absurd hodd (by decide)

end

/-- Every quotient in the interval of a double rounds to the double. -/
theorem nearestBits_of_holds {p : Parts} (hp : p.Proper) (hpos : 0 < p.significand)
    (hfinite : p.bits ≤ infinityBits) {num den : Nat} (hden : 0 < den)
    (h : (interval p).Holds ((num : ℚ) / den)) : nearestBits num den = p.bits := by
  have hnear := h.near hpos
  have hnum : 0 < num := by
    rcases Nat.eq_zero_or_pos num with rfl | hnum
    · have hlow := hnear.low
      have hm : (1 : ℚ) ≤ p.significand := by exact_mod_cast hpos
      simp only [Nat.cast_zero, zero_div] at hlow
      linarith
    · exact hnum
  by_cases hreach : p.exponent = minExponent ∨ (2 : ℚ) ^ 52 ≤ num / den / 2 ^ p.exponent
  · exact nearestBits_sameGrid hp hfinite hnum hden hnear hreach
  · obtain ⟨hleast, hshort⟩ := not_or.mp hreach
    have hexponent : minExponent < p.exponent := lt_of_le_of_ne hp.least (Ne.symm hleast)
    exact nearestBits_finerGrid hp hfinite hnum hden hnear hexponent (lt_of_not_ge hshort)

end LoxLang.Shortest
