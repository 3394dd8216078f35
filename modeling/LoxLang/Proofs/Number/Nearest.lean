import LoxLang.Proofs.Number.Rounding

set_option autoImplicit false

/-! # The nearest double

`nearestBits` rounds a quotient on one grid, the one that doubles of its size lie on. Here the result is
compared with all doubles: none is nearer to the quotient, and of two that are equally near it is the
even one (`nearestBits_closest`). Doubles with a coarser grid lie on the finer one, too, so among them
the nearest integer decides; doubles with a finer grid are all below the power of two that the quotient
has passed, which is nearer than they are. A quotient is too large for a double from half-way between
the greatest one and `2 ^ 1024` on (`nearestBits_overflow`). -/

namespace LoxLang.Binary64

/-- The number that the parts of a double make up. -/
def Parts.value (p : Parts) : ℚ :=
  p.significand * 2 ^ p.exponent

/-- The number that the bits of a magnitude stand for. The bits of infinity stand for `2 ^ 1024`, which
comes next behind the greatest double. -/
def bitsValue (bits : Nat) : ℚ :=
  (Parts.ofBits bits).value

theorem bitsValue_nonneg (bits : Nat) : 0 ≤ bitsValue bits := by
  rw [bitsValue, Parts.value]
  positivity

theorem bitsValue_zero : bitsValue 0 = 0 := by
  simp [bitsValue, Parts.ofBits, Parts.value]

theorem Parts.ofBits_bits {p : Parts} (hp : p.Proper) : Parts.ofBits p.bits = p := by
  obtain ⟨m, k⟩ := p
  obtain ⟨hfits, hleast, hlong⟩ := hp
  have hdouble : Nat.pow 2 53 = Nat.pow 2 52 + Nat.pow 2 52 := rfl
  have hunit : 0 < Nat.pow 2 52 := Nat.pow_pos two_pos
  dsimp only at hfits hleast hlong
  by_cases hshort : m < Nat.pow 2 52
  · -- Without the leading bit, the exponent is the least one.
    have hk : k = minExponent := by
      by_contra hne
      exact absurd (hlong (lt_of_le_of_ne hleast (Ne.symm hne))) (Nat.not_le_of_lt hshort)
    have hbits : (⟨m, k⟩ : Parts).bits = m := by
      rw [Parts.bits, hk, sub_self, Int.toNat_zero, Nat.zero_mul, Nat.zero_add]
    rw [hbits, Parts.ofBits, Nat.div_eq_of_lt hshort, Nat.mod_eq_of_lt hshort, hk]
  · obtain ⟨fraction, hm⟩ := Nat.exists_eq_add_of_le (Nat.le_of_not_lt hshort)
    have hfraction : fraction < Nat.pow 2 52 := by omega
    have hsplit : fraction + Nat.pow 2 52 * ((k - minExponent).toNat + 1)
        = (⟨m, k⟩ : Parts).bits := by
      rw [Parts.bits, hm]
      ring
    obtain ⟨hdiv, hmod⟩ := (Nat.div_mod_unique hunit).mpr ⟨hsplit, hfraction⟩
    rw [Parts.ofBits, hdiv, hmod]
    dsimp only
    rw [Parts.mk.injEq, hm]
    exact ⟨rfl, by omega⟩

/-! ## The nearest integer -/

/-- Multiplied out, the rounded quotient is at most half a denominator off, and exactly that only if it
is even. -/
theorem roundHalfEven_bounds (num : Nat) {den : Nat} (hden : 0 < den) :
    2 * (den * roundHalfEven num den) ≤ 2 * num + den ∧
      2 * num ≤ 2 * (den * roundHalfEven num den) + den ∧
      (2 * (den * roundHalfEven num den) = 2 * num + den ∨
        2 * num = 2 * (den * roundHalfEven num den) + den → roundHalfEven num den % 2 = 0) := by
  have hsplit : den * (num / den) + num % den = num := Nat.div_add_mod num den
  have hrest : num % den < den := Nat.mod_lt _ hden
  unfold roundHalfEven
  dsimp only
  generalize num / den = whole at hsplit ⊢
  generalize num % den = rest at hsplit hrest ⊢
  split
  case isTrue h =>
    simp only [Bool.or_eq_true, decide_eq_true_eq, Bool.and_eq_true, beq_iff_eq] at h
    omega
  case isFalse h =>
    simp only [Bool.or_eq_true, decide_eq_true_eq, Bool.and_eq_true, beq_iff_eq] at h
    rw [Nat.mul_add]
    omega

theorem roundHalfEven_near (num : Nat) {den : Nat} (hden : 0 < den) :
    |(roundHalfEven num den : ℚ) - num / den| ≤ 1 / 2 ∧
      (|(roundHalfEven num den : ℚ) - num / den| = 1 / 2 → roundHalfEven num den % 2 = 0) := by
  have hpos : (0 : ℚ) < den := by exact_mod_cast hden
  obtain ⟨hlow, hhigh, htie⟩ := roundHalfEven_bounds num hden
  generalize roundHalfEven num den = m at hlow hhigh htie ⊢
  have hquotient : (num : ℚ) / den * den = num := div_mul_cancel₀ _ hpos.ne'
  generalize (num : ℚ) / den = z at hquotient ⊢
  have hlow' : (2 * (den * m) : ℚ) ≤ 2 * num + den := by exact_mod_cast hlow
  have hhigh' : (2 * num : ℚ) ≤ 2 * (den * m) + den := by exact_mod_cast hhigh
  constructor
  · rw [abs_le]
    constructor <;> nlinarith
  · intro hhalf
    apply htie
    rcases abs_cases ((m : ℚ) - z) with ⟨habs, -⟩ | ⟨habs, -⟩
    · left
      have hz : z = m - 1 / 2 := by linarith
      have heq : (2 * (den * m) : ℚ) = 2 * num + den := by rw [← hquotient, hz]; ring
      exact_mod_cast heq
    · right
      have hz : z = m + 1 / 2 := by linarith
      have heq : (2 * num : ℚ) = 2 * (den * m) + den := by rw [← hquotient, hz]; ring
      exact_mod_cast heq

/-- Within half a unit of a number there is no nearer integer, and another one that is as near is half a
unit away as well. -/
theorem near_integer {m : Nat} {z : ℚ} (h : |(m : ℚ) - z| ≤ 1 / 2) (t : Nat) :
    |(m : ℚ) - z| ≤ |(t : ℚ) - z| ∧
      (t ≠ m → |(m : ℚ) - z| = |(t : ℚ) - z| → |(m : ℚ) - z| = 1 / 2) := by
  by_cases hsame : t = m
  · rw [hsame]
    exact ⟨le_rfl, fun hne => absurd rfl hne⟩
  · have hapart : (1 : ℚ) ≤ |(t : ℚ) - m| := by
      have hint : (1 : ℤ) ≤ |(t : ℤ) - m| := by
        have hpos : 0 < |(t : ℤ) - m| := abs_pos.mpr (by omega)
        omega
      exact_mod_cast hint
    have htriangle : |(t : ℚ) - m| ≤ |(t : ℚ) - z| + |(m : ℚ) - z| := by
      rw [abs_sub_comm (m : ℚ) z]
      exact abs_sub_le _ _ _
    refine ⟨by linarith, fun _ heq => ?_⟩
    linarith

/-! ## Numbers on the grid -/

/-- A number and the grid `2 ^ e` of the doubles of its size, with the nearest place `s` on it. -/
structure OnGrid (x : ℚ) (e : ℤ) (s : Nat) : Prop where
  least : minExponent ≤ e
  reach : e = minExponent ∨ (2 : ℚ) ^ 52 ≤ x / 2 ^ e
  below : x / 2 ^ e < 2 ^ 53
  near : |(s : ℚ) - x / 2 ^ e| ≤ 1 / 2
  tie : |(s : ℚ) - x / 2 ^ e| = 1 / 2 → s % 2 = 0

theorem nearestBits_onGrid {num den : Nat} (hnum : 0 < num) (hden : 0 < den) :
    ∃ e s, OnGrid ((num : ℚ) / den) e s ∧
      nearestBits num den = min ((e - minExponent).toNat * Nat.pow 2 52 + s) infinityBits := by
  obtain ⟨hlow, hhigh⟩ := floorLog2_spec hnum hden
  let e := max (floorLog2 num den - 52) minExponent
  let s := roundHalfEven (num * Nat.pow 2 (-e).toNat) (den * Nat.pow 2 e.toNat)
  have hunit : 0 < den * Nat.pow 2 e.toNat := Nat.mul_pos hden (Nat.pow_pos two_pos)
  obtain ⟨hnear, htie⟩ := roundHalfEven_near (num * Nat.pow 2 (-e).toNat) hunit
  rw [scaled_eq hden] at hnear htie
  have hpos : (0 : ℚ) < 2 ^ e := by positivity
  refine ⟨e, s, ⟨le_max_right _ _, ?_, ?_, hnear, htie⟩, ?_⟩
  · rcases le_total (floorLog2 num den - 52) minExponent with h | h
    · exact Or.inl (max_eq_right h)
    · right
      have he : e + 52 = floorLog2 num den := by
        show max _ _ + 52 = _
        rw [max_eq_left h]
        omega
      rw [le_div_iff₀ hpos, ← zpow_natCast, ← zpow_add₀ two_ne_zero]
      have hexp : ((52 : ℕ) : ℤ) + e = floorLog2 num den := by omega
      rwa [hexp]
  · have hle : floorLog2 num den + 1 ≤ e + 53 := by
      have := le_max_left (floorLog2 num den - 52) minExponent
      show _ ≤ max _ _ + 53
      omega
    rw [div_lt_iff₀ hpos, ← zpow_natCast, ← zpow_add₀ two_ne_zero]
    refine hhigh.trans_le ((zpow_le_zpow_iff_right₀ one_lt_two).mpr ?_)
    omega
  · unfold nearestBits
    rw [if_neg hnum.ne']

namespace OnGrid

variable {x : ℚ} {e : ℤ} {s : Nat}

theorem fits (h : OnGrid x e s) : s ≤ Nat.pow 2 53 := by
  have hlt : (s : ℚ) < 2 ^ 53 + 1 := by
    have := (abs_le.mp h.near).2
    have := h.below
    linarith
  exact Nat.lt_add_one_iff.mp (by exact_mod_cast hlt)

theorem long (h : OnGrid x e s) (he : minExponent < e) : Nat.pow 2 52 ≤ s := by
  have hlt : (2 : ℚ) ^ 52 < s + 1 := by
    have hreach := h.reach.resolve_left he.ne'
    have := (abs_le.mp h.near).1
    linarith
  exact Nat.lt_add_one_iff.mp (by exact_mod_cast hlt)

/-- The bits of a place on the grid stand for it. The greatest place carries into the exponent. -/
theorem bitsValue_eq (h : OnGrid x e s) :
    bitsValue ((e - minExponent).toNat * Nat.pow 2 52 + s) = s * 2 ^ e := by
  rcases lt_or_eq_of_le h.fits with hlt | heq
  · have hproper : (⟨s, e⟩ : Parts).Proper := ⟨hlt, h.least, h.long⟩
    show (Parts.ofBits (⟨s, e⟩ : Parts).bits).value = _
    rw [Parts.ofBits_bits hproper]
    rfl
  · have hleast := h.least
    have hproper : (⟨Nat.pow 2 52, e + 1⟩ : Parts).Proper :=
      ⟨Nat.pow_lt_pow_right one_lt_two (by omega), by dsimp only; omega, fun _ => le_rfl⟩
    have hdouble : Nat.pow 2 53 = Nat.pow 2 52 + Nat.pow 2 52 := rfl
    have hbits : (e - minExponent).toNat * Nat.pow 2 52 + s
        = (⟨Nat.pow 2 52, e + 1⟩ : Parts).bits := by
      have hcarry : (e + 1 - minExponent).toNat = (e - minExponent).toNat + 1 := by omega
      rw [heq, Parts.bits, hcarry, Nat.succ_mul, hdouble, Nat.add_assoc]
    rw [hbits, bitsValue, Parts.ofBits_bits hproper, Parts.value, heq, zpow_add_one₀ two_ne_zero]
    push_cast [Nat.pow_eq]
    ring

/-- Distances on the grid are those of integers, in units of `2 ^ e`. -/
theorem distance_eq (t x : ℚ) (e : ℤ) : |t * 2 ^ e - x| = |t - x / 2 ^ e| * 2 ^ e := by
  have hunit : (0 : ℚ) < 2 ^ e := by positivity
  rw [← abs_of_pos hunit, ← abs_mul, abs_of_pos hunit, sub_mul, div_mul_cancel₀ _ hunit.ne']

/-- A double with a coarser grid has a place on this one, too. -/
theorem closest_coarser (h : OnGrid x e s) {p : Parts} (hcoarse : e ≤ p.exponent) :
    |s * (2 : ℚ) ^ e - x| ≤ |p.value - x| ∧
      (p.value ≠ s * 2 ^ e → |s * (2 : ℚ) ^ e - x| = |p.value - x| → s % 2 = 0) := by
  have hunit : (0 : ℚ) < 2 ^ e := by positivity
  let t : Nat := p.significand * 2 ^ (p.exponent - e).toNat
  have hvalue : p.value = t * 2 ^ e := by
    have hsplit : (2 : ℚ) ^ p.exponent = 2 ^ (p.exponent - e).toNat * 2 ^ e := by
      rw [← zpow_natCast, ← zpow_add₀ two_ne_zero]
      congr 1
      omega
    rw [Parts.value, hsplit]
    push_cast [t]
    ring
  obtain ⟨hle, heven⟩ := near_integer h.near t
  rw [hvalue, distance_eq, distance_eq]
  refine ⟨mul_le_mul_of_nonneg_right hle hunit.le, fun hne heq => h.tie (heven ?_ ?_)⟩
  · rintro rfl
    exact hne rfl
  · exact mul_right_cancel₀ hunit.ne' heq

/-- A double with a finer grid is below the power of two that `x` has passed. -/
theorem closest_finer (h : OnGrid x e s) {p : Parts} (hp : p.Proper) (hfine : p.exponent < e) :
    |s * (2 : ℚ) ^ e - x| < |p.value - x| := by
  have hunit : (0 : ℚ) < 2 ^ e := by positivity
  have hreach : (2 : ℚ) ^ 52 ≤ x / 2 ^ e := by
    refine h.reach.resolve_left ?_
    have hleast := hp.least
    omega
  have hvalue : p.value < 2 ^ 52 * 2 ^ e := by
    have hfits : (p.significand : ℚ) < 2 ^ 53 := by exact_mod_cast hp.fits
    calc p.value < 2 ^ 53 * 2 ^ p.exponent := by
          rw [Parts.value]
          gcongr
      _ ≤ 2 ^ 53 * 2 ^ (e - 1) := by
          gcongr
          · norm_num
          · omega
      _ = 2 ^ 52 * 2 ^ e := by
          rw [zpow_sub_one₀ two_ne_zero]
          ring
  have hpassed : (2 : ℚ) ^ 52 * 2 ^ e ≤ x := (le_div_iff₀ hunit).mp hreach
  have hpower : |s * (2 : ℚ) ^ e - x| ≤ |2 ^ 52 * 2 ^ e - x| := by
    rw [distance_eq, distance_eq]
    refine mul_le_mul_of_nonneg_right ?_ hunit.le
    exact_mod_cast (near_integer h.near (2 ^ 52)).1
  calc |s * (2 : ℚ) ^ e - x| ≤ |2 ^ 52 * 2 ^ e - x| := hpower
    _ < |p.value - x| := by
        rw [abs_of_nonpos (by linarith), abs_of_neg (by linarith)]
        linarith

/-- No double is nearer than the nearest place on the grid, and one that is as near makes that place an
even one. -/
theorem closest (h : OnGrid x e s) {p : Parts} (hp : p.Proper) :
    |s * (2 : ℚ) ^ e - x| ≤ |p.value - x| ∧
      (p.value ≠ s * 2 ^ e → |s * (2 : ℚ) ^ e - x| = |p.value - x| → s % 2 = 0) := by
  rcases le_or_gt e p.exponent with hcoarse | hfine
  · exact h.closest_coarser hcoarse
  · have hlt := h.closest_finer hp hfine
    exact ⟨hlt.le, fun _ heq => absurd heq hlt.ne⟩

/-- The grids of doubles that are not too large. -/
theorem bits_le (h : OnGrid x e s) (he : e ≤ 971) :
    (e - minExponent).toNat * Nat.pow 2 52 + s ≤ infinityBits := by
  have hfits := h.fits
  have hgrids : (e - minExponent).toNat ≤ 2045 := by
    have : minExponent = -1074 := rfl
    omega
  calc (e - minExponent).toNat * Nat.pow 2 52 + s ≤ 2045 * Nat.pow 2 52 + Nat.pow 2 53 :=
        Nat.add_le_add (Nat.mul_le_mul_right _ hgrids) hfits
    _ = infinityBits := rfl

end OnGrid

/-! ## Infinity -/

/-- The number that comes next behind the greatest double on its grid. -/
def limit : ℚ :=
  2 ^ 1024

/-- The number half-way between the greatest double and the next. -/
def overflowFrom : ℚ :=
  2 ^ 1024 - 2 ^ 970

theorem limit_eq : limit = 2 ^ 53 * 2 ^ (971 : ℤ) := by
  rw [limit, zpow_ofNat, ← pow_add]

theorem overflowFrom_eq : overflowFrom = (2 ^ 53 - 1 / 2) * 2 ^ (971 : ℤ) := by
  have hstep : (2 : ℚ) ^ 971 = 2 * 2 ^ 970 := by rw [← pow_succ']
  have hlimit : (2 : ℚ) ^ 1024 = 2 ^ 53 * 2 ^ 971 := by rw [← pow_add]
  rw [overflowFrom, zpow_ofNat, hlimit, hstep]
  generalize (2 : ℚ) ^ 970 = w
  ring

theorem bitsValue_infinity : bitsValue infinityBits = limit := by
  have hbits : infinityBits = (⟨Nat.pow 2 52, 972⟩ : Parts).bits := rfl
  have hproper : (⟨Nat.pow 2 52, 972⟩ : Parts).Proper := ⟨by decide, by decide, fun _ => le_rfl⟩
  rw [hbits, bitsValue, Parts.ofBits_bits hproper, Parts.value, zpow_ofNat, Nat.pow_eq, Nat.cast_pow,
    Nat.cast_ofNat, ← pow_add, limit]

/-- Beyond the last grid of doubles all bits are those of infinity or above. -/
theorem infinityBits_le {e : ℤ} {s : Nat} (he : 971 < e) (hlong : Nat.pow 2 52 ≤ s) :
    infinityBits ≤ (e - minExponent).toNat * Nat.pow 2 52 + s := by
  have hleast : minExponent = -1074 := rfl
  have hgrids : 2046 ≤ (e - minExponent).toNat := by omega
  calc infinityBits = 2046 * Nat.pow 2 52 + Nat.pow 2 52 := rfl
    _ ≤ (e - minExponent).toNat * Nat.pow 2 52 + s :=
        Nat.add_le_add (Nat.mul_le_mul_right _ hgrids) hlong

/-- All other magnitudes are below. -/
theorem bitsValue_lt {bits : Nat} (h : bits < infinityBits) : bitsValue bits < limit := by
  have hproper := Parts.ofBits_proper bits
  have hexponent : (Parts.ofBits bits).exponent ≤ 971 := by
    by_contra hgt
    have hleast : minExponent = -1074 := rfl
    have hlarge := infinityBits_le (not_le.mp hgt) (hproper.long (by omega))
    have hbits : _ = bits := Parts.bits_ofBits bits
    rw [Parts.bits] at hbits
    omega
  have hfits : ((Parts.ofBits bits).significand : ℚ) < 2 ^ 53 := by exact_mod_cast hproper.fits
  calc bitsValue bits < 2 ^ 53 * 2 ^ (Parts.ofBits bits).exponent := by
        rw [bitsValue, Parts.value]
        gcongr
    _ ≤ 2 ^ 53 * 2 ^ (971 : ℤ) := by
        gcongr
        norm_num
    _ = limit := limit_eq.symm

namespace OnGrid

variable {x : ℚ} {e : ℤ} {s : Nat}

/-- On the coarser grids everything is too large. -/
theorem overflow (h : OnGrid x e s) (he : 971 < e) :
    infinityBits ≤ (e - minExponent).toNat * Nat.pow 2 52 + s ∧ limit ≤ x := by
  have hleast : minExponent = -1074 := rfl
  have hunit : (0 : ℚ) < 2 ^ e := by positivity
  have hreach : (2 : ℚ) ^ 52 ≤ x / 2 ^ e := h.reach.resolve_left (by omega)
  refine ⟨infinityBits_le he (h.long (by omega)), ?_⟩
  calc limit = 2 ^ 52 * 2 ^ (972 : ℤ) := by rw [limit, zpow_ofNat, ← pow_add]
    _ ≤ 2 ^ 52 * 2 ^ e := by
        gcongr
        · norm_num
        · omega
    _ ≤ x := (le_div_iff₀ hunit).mp hreach

/-- The place of infinity is not reached from farther away than half a step. -/
theorem overflowFrom_le (h : OnGrid x e s) (he : e ≤ 971) (hplace : (s : ℚ) * 2 ^ e = limit) :
    overflowFrom ≤ x := by
  have hunit : (0 : ℚ) < 2 ^ e := by positivity
  have hx : x = x / 2 ^ e * 2 ^ e := (div_mul_cancel₀ _ hunit.ne').symm
  have hstep : (2 : ℚ) ^ e ≤ 2 ^ (971 : ℤ) := (zpow_le_zpow_iff_right₀ one_lt_two).mpr he
  have hlow := (abs_le.mp h.near).2
  rw [limit_eq] at hplace
  rw [overflowFrom_eq, hx]
  generalize x / 2 ^ e = y at hlow ⊢
  generalize (2 : ℚ) ^ (971 : ℤ) = w at hplace hstep ⊢
  nlinarith

/-- From half-way on, only the last grid is in question. -/
theorem exponent_eq (h : OnGrid x e s) (he : e ≤ 971) (hx : overflowFrom ≤ x) : e = 971 := by
  by_contra hne
  have hunit : (0 : ℚ) < 2 ^ e := by positivity
  have hstep : (2 : ℚ) ^ e ≤ 2 ^ (970 : ℤ) := (zpow_le_zpow_iff_right₀ one_lt_two).mpr (by omega)
  have hdouble : (2 : ℚ) ^ (971 : ℤ) = 2 * 2 ^ (970 : ℤ) := by
    rw [zpow_ofNat, zpow_ofNat, ← pow_succ']
  have hpos : (0 : ℚ) < 2 ^ (970 : ℤ) := by positivity
  have hsmall : x < 2 ^ 53 * 2 ^ (970 : ℤ) := by
    calc x = x / 2 ^ e * 2 ^ e := (div_mul_cancel₀ _ hunit.ne').symm
      _ < 2 ^ 53 * 2 ^ e := mul_lt_mul_of_pos_right h.below hunit
      _ ≤ 2 ^ 53 * 2 ^ (970 : ℤ) := by gcongr
  rw [overflowFrom_eq, hdouble] at hx
  generalize (2 : ℚ) ^ (970 : ℤ) = w at hx hsmall hpos
  linarith only [hx, hsmall, hpos]

/-- On that grid only the place of infinity is near enough: the one below is half a unit away, and it
is odd. -/
theorem place_eq (h : OnGrid x 971 s) (hx : overflowFrom ≤ x) : s = Nat.pow 2 53 := by
  have hunit : (0 : ℚ) < 2 ^ (971 : ℤ) := by positivity
  have hreached : (2 : ℚ) ^ 53 - 1 / 2 ≤ x / 2 ^ (971 : ℤ) := by
    rw [le_div_iff₀ hunit, ← overflowFrom_eq]
    exact hx
  have hhigh := (abs_le.mp h.near).1
  have htie := h.tie
  generalize x / 2 ^ (971 : ℤ) = y at hreached hhigh htie
  refine le_antisymm h.fits ?_
  by_contra hlt
  have hlower : (s : ℚ) + 1 ≤ 2 ^ 53 := by exact_mod_cast Nat.lt_of_not_le hlt
  have hsame : (s : ℚ) + 1 = 2 ^ 53 := by linarith
  have heven : s % 2 = 0 := by
    apply htie
    rw [abs_of_nonpos (by linarith)]
    linarith
  have hodd : s + 1 = Nat.pow 2 53 := by exact_mod_cast hsame
  have hpow : Nat.pow 2 53 = 2 * Nat.pow 2 52 := rfl
  omega

/-- The place that becomes infinity is taken from half-way on. -/
theorem eq_infinityBits_iff (h : OnGrid x e s) (he : e ≤ 971) :
    (e - minExponent).toNat * Nat.pow 2 52 + s = infinityBits ↔ overflowFrom ≤ x := by
  constructor
  · intro hbits
    apply h.overflowFrom_le he
    rw [← h.bitsValue_eq, hbits, bitsValue_infinity]
  · intro hx
    obtain rfl := h.exponent_eq he hx
    rw [h.place_eq hx]
    rfl

end OnGrid

/-! ## Rounding to a double -/

/-- No magnitude is nearer to a quotient than the one it rounds to, and if another one is as near, the
one it rounds to is even. -/
theorem nearestBits_closest (num : Nat) {den : Nat} (hden : 0 < den) {bits : Nat}
    (hbits : bits ≤ infinityBits) :
    |bitsValue (nearestBits num den) - num / den| ≤ |bitsValue bits - num / den| ∧
      (bitsValue bits ≠ bitsValue (nearestBits num den) →
        |bitsValue (nearestBits num den) - num / den| = |bitsValue bits - num / den| →
        nearestBits num den % 2 = 0) := by
  rcases Nat.eq_zero_or_pos num with rfl | hnum
  · have hzero : nearestBits 0 den = 0 := if_pos rfl
    rw [hzero, bitsValue_zero, Nat.cast_zero, zero_div, sub_zero, abs_zero]
    exact ⟨abs_nonneg _, fun _ _ => rfl⟩
  · obtain ⟨e, s, hgrid, hnearest⟩ := nearestBits_onGrid hnum hden
    rcases le_or_gt e 971 with he | he
    · have hparity : ((e - minExponent).toNat * Nat.pow 2 52 + s) % 2 = s % 2 := by
        have heven : Nat.pow 2 52 = 2 * Nat.pow 2 51 := rfl
        rw [heven, Nat.mul_left_comm, Nat.mul_add_mod]
      rw [hnearest, min_eq_left (hgrid.bits_le he), hgrid.bitsValue_eq, hparity]
      exact hgrid.closest (Parts.ofBits_proper bits)
    · obtain ⟨hlarge, hpassed⟩ := hgrid.overflow he
      rw [hnearest, min_eq_right hlarge, bitsValue_infinity]
      rcases eq_or_lt_of_le hbits with rfl | hlt
      · rw [bitsValue_infinity]
        exact ⟨le_rfl, fun hne => absurd rfl hne⟩
      · have hbelow := bitsValue_lt hlt
        rw [abs_of_nonpos (by linarith), abs_of_neg (by linarith)]
        exact ⟨by linarith, fun _ heq => absurd heq (by linarith)⟩

/-- A quotient rounds to infinity from half-way between the greatest double and the next number on its
grid. -/
theorem nearestBits_overflow (num : Nat) {den : Nat} (hden : 0 < den) :
    nearestBits num den = infinityBits ↔ overflowFrom ≤ num / den := by
  have hpos : 0 < overflowFrom := by
    rw [overflowFrom_eq]
    exact mul_pos (by norm_num) (by positivity)
  rcases Nat.eq_zero_or_pos num with rfl | hnum
  · rw [Nat.cast_zero, zero_div]
    constructor
    · intro hzero
      cases hzero
    · intro hle
      exact absurd hpos (not_lt_of_ge hle)
  · obtain ⟨e, s, hgrid, hnearest⟩ := nearestBits_onGrid hnum hden
    rcases le_or_gt e 971 with he | he
    · rw [hnearest, min_eq_left (hgrid.bits_le he)]
      exact hgrid.eq_infinityBits_iff he
    · obtain ⟨hlarge, hpassed⟩ := hgrid.overflow he
      rw [hnearest, min_eq_right hlarge]
      have hle : overflowFrom ≤ limit := by
        rw [overflowFrom_eq, limit_eq]
        gcongr
        linarith
      exact ⟨fun _ => hle.trans hpassed, fun _ => rfl⟩

end LoxLang.Binary64
