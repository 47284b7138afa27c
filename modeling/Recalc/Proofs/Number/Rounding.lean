import Mathlib.Algebra.Order.Field.Power
import Mathlib.Tactic.FieldSimp
import Mathlib.Tactic.NormNum
import Mathlib.Tactic.Positivity
import Mathlib.Tactic.Ring

namespace Recalc.Binary64

open Float.Model Float.Model.UnpackedFloat

/-- How a double keeps the size `m · 2 ^ e`: with 53 bits, or with fewer at the least exponent. -/
structure Canonical (m : Nat) (e : Int) : Prop where
  pos : 0 < m
  lt : m < 2 ^ 53
  least : -1074 ≤ e
  full : 2 ^ 52 ≤ m ∨ e = -1074

variable {m n k : Nat} {e f : Int}

theorem targetExponent_eq (t : Int) :
    Format.binary64.targetExponent t = max (t - 53) (-1074) := by
  rfl

theorem log2_mul_two_pow (hm : 0 < m) (k : Nat) : (m * 2 ^ k).log2 = m.log2 + k := by
  have hne : m * 2 ^ k ≠ 0 := Nat.mul_ne_zero (by omega) (by positivity)
  have hle := Nat.log2_self_le (Nat.pos_iff_ne_zero.mp hm)
  have hlt := Nat.lt_log2_self (n := m)
  rw [Nat.log2_eq_iff hne, pow_add, show m.log2 + k + 1 = m.log2 + 1 + k by omega, pow_add]
  exact ⟨Nat.mul_le_mul_right _ hle, Nat.mul_lt_mul_of_pos_right hlt (by positivity)⟩

theorem totalExponent_mul_two_pow (hm : 0 < m) (k : Nat) :
    totalExponent (m * 2 ^ k) (e - k) = totalExponent m e := by
  rw [totalExponent, totalExponent, log2_mul_two_pow hm]
  omega

theorem Canonical.target (h : Canonical m e) :
    Format.binary64.targetExponent (totalExponent m e) = e := by
  have hne : m ≠ 0 := Nat.pos_iff_ne_zero.mp h.pos
  have hlog : m.log2 < 53 := (Nat.log2_lt hne).mpr h.lt
  have hleast := h.least
  rw [targetExponent_eq, totalExponent]
  rcases h.full with hfull | rfl
  · have hlog' : 52 ≤ m.log2 := (Nat.le_log2 hne).mpr hfull
    omega
  · omega

/-- Bits that are all zero can be dropped exactly. -/
theorem shiftRight_mul_two_pow (m k : Nat) :
    (⟨m * 2 ^ k, false, false⟩ : ExtendedMantissa) >>> k = ⟨m, false, false⟩ := by
  induction k generalizing m with
  | zero =>
    rw [pow_zero, Nat.mul_one]
    rfl
  | succ k ih =>
    have hdouble : (⟨m * 2 ^ (k + 1), false, false⟩ : ExtendedMantissa) >>> k =
        ⟨m * 2, false, false⟩ := by
      rw [pow_succ', ← Nat.mul_assoc]
      exact ih (m * 2)
    change ExtendedMantissa.shiftRightOne
      ((⟨m * 2 ^ (k + 1), false, false⟩ : ExtendedMantissa) >>> k) = _
    rw [hdouble, ExtendedMantissa.shiftRightOne]
    simp

theorem shiftToTargetExponent_of_canonical (h : Canonical m e) (k : Nat) :
    shiftToTargetExponent Format.binary64 (m * 2 ^ k) (e - k) .exact = (⟨m, false, false⟩, e) := by
  have hamount : (e - (e - k)).toNat = k := by omega
  rw [shiftToTargetExponent, totalExponent_mul_two_pow h.pos, h.target, shiftToExponent]
  simp only [hamount, ExtendedMantissa.ofMantissaAndAccuracy, shiftRight_mul_two_pow]
  rw [Int.sub_add_cancel]

/-- A size that a double can keep is not rounded. -/
theorem roundWithAccuracy_of_canonical (h : Canonical m e) (s : Sign) (k : Nat) :
    roundWithAccuracy Format.binary64 s (m * 2 ^ k) (e - k) .exact = .finite s m e h.pos := by
  have hround : (⟨m, false, false⟩ : ExtendedMantissa).roundedMantissa = m := rfl
  have hsecond := shiftToTargetExponent_of_canonical h 0
  rw [pow_zero, Nat.mul_one, Nat.cast_zero, Int.sub_zero, ← hround] at hsecond
  rw [roundWithAccuracy, shiftToTargetExponent_of_canonical h k]
  dsimp only
  rw [hsecond]
  exact dif_neg (Nat.pos_iff_ne_zero.mp h.pos)

/-- The number `m · 2 ^ e`. -/
def size (m : Nat) (e : Int) : ℚ := m * 2 ^ e

theorem size_mul_two_pow (m k : Nat) (e : Int) : size (m * 2 ^ k) (e - k) = size m e := by
  rw [size, size, zpow_sub₀ (by norm_num), zpow_natCast]
  push_cast
  field_simp

/-- Equal sizes differ by zero bits only. -/
theorem eq_mul_two_pow_of_size (h : size n f = size m e) (hfe : f ≤ e) :
    n = m * 2 ^ (e - f).toNat ∧ f = e - (e - f).toNat := by
  have hexponent : f = e - ((e - f).toNat : Int) := by omega
  refine ⟨?_, hexponent⟩
  rw [hexponent, ← size_mul_two_pow m (e - f).toNat e, ← hexponent, size, size] at h
  have hpos : (2 : ℚ) ^ f ≠ 0 := zpow_ne_zero f (by norm_num)
  exact_mod_cast mul_right_cancel₀ hpos h

theorem two_zpow_le_size (hm : 0 < m) (e : Int) : (2 : ℚ) ^ (m.log2 + e : Int) ≤ size m e := by
  have hle : (2 : ℚ) ^ m.log2 ≤ m := by
    exact_mod_cast Nat.log2_self_le (Nat.pos_iff_ne_zero.mp hm)
  rw [size, zpow_add₀ (by norm_num), zpow_natCast]
  exact mul_le_mul_of_nonneg_right hle (zpow_nonneg (by norm_num) e)

theorem size_lt_two_zpow (m : Nat) (e : Int) : size m e < (2 : ℚ) ^ (m.log2 + 1 + e : Int) := by
  have hlt : (m : ℚ) < 2 ^ (m.log2 + 1) := by
    exact_mod_cast Nat.lt_log2_self
  rw [size, zpow_add₀ (by norm_num)]
  have hcast : (2 : ℚ) ^ (m.log2 + 1 : Int) = 2 ^ (m.log2 + 1) := by
    exact_mod_cast zpow_natCast (2 : ℚ) (m.log2 + 1)
  rw [hcast]
  exact mul_lt_mul_of_pos_right hlt (zpow_pos (by norm_num) e)

theorem size_mul_size (m n : Nat) (e f : Int) : size m e * size n f = size (m * n) (e + f) := by
  rw [size, size, size, zpow_add₀ (by norm_num)]
  push_cast
  ring

/-- A product whose size a double can keep is not rounded. -/
theorem mul_of_canonical (h : Canonical m e) (s t : Sign) {e₁ e₂ : Int} {m₁ m₂ : Nat} (h₁ : 0 < m₁)
    (h₂ : 0 < m₂) (hsize : size m₁ e₁ * size m₂ e₂ = size m e) (hbits : 2 ^ 52 ≤ m₁ * m₂) :
    UnpackedFloat.mul Format.binary64 (.finite s m₁ e₁ h₁) (.finite t m₂ e₂ h₂) =
      .finite (s * t) m e h.pos := by
  have hne : m ≠ 0 := Nat.pos_iff_ne_zero.mp h.pos
  have hprod : 0 < m₁ * m₂ := Nat.mul_pos h₁ h₂
  rw [size_mul_size] at hsize
  have hle : e₁ + e₂ ≤ e := by
    have hlow := two_zpow_le_size hprod (e₁ + e₂)
    have hhigh := size_lt_two_zpow m e
    rw [hsize] at hlow
    have hlt := (zpow_lt_zpow_iff_right₀ (by norm_num)).mp (hlow.trans_lt hhigh)
    have hlog := (Nat.le_log2 (Nat.pos_iff_ne_zero.mp hprod)).mpr hbits
    have hlog' := (Nat.log2_lt hne).mpr h.lt
    omega
  obtain ⟨hm, he⟩ := eq_mul_two_pow_of_size hsize hle
  have hround := roundWithAccuracy_of_canonical h (s * t) (e - (e₁ + e₂)).toNat
  rw [← he, ← hm] at hround
  exact hround

theorem div_finite (s t : Sign) {e₁ e₂ : Int} {m₁ m₂ : Nat} (h₁ : 0 < m₁) (h₂ : 0 < m₂) :
    UnpackedFloat.div Format.binary64 (.finite s m₁ e₁ h₁) (.finite t m₂ e₂ h₂) =
      roundWithAccuracy Format.binary64 (s / t) (divCore Format.binary64 m₁ e₁ m₂ e₂).1
        (divCore Format.binary64 m₁ e₁ m₂ e₂).2.1 (divCore Format.binary64 m₁ e₁ m₂ e₂).2.2 := rfl

/-- A quotient whose size a double can keep is not rounded. -/
theorem div_of_canonical (h : Canonical m e) (s t : Sign) {e₁ e₂ : Int} {m₁ m₂ : Nat} (h₁ : 0 < m₁)
    (h₂ : 0 < m₂) (hsize : size m₁ e₁ = size m e * size m₂ e₂) :
    UnpackedFloat.div Format.binary64 (.finite s m₁ e₁ h₁) (.finite t m₂ e₂ h₂) =
      .finite (s / t) m e h.pos := by
  have htwo : (1 : ℚ) < 2 := by norm_num
  -- The quotient of the leading bits is off by one at most.
  have hlead : totalExponent m₁ e₁ - totalExponent m₂ e₂ ≤ totalExponent m e := by
    have hlow := two_zpow_le_size h₁ e₁
    have hhigh : size m e * size m₂ e₂ <
        (2 : ℚ) ^ (m.log2 + 1 + e : Int) * 2 ^ (m₂.log2 + 1 + e₂ : Int) := by
      have hnonneg : 0 ≤ size m e := mul_nonneg (Nat.cast_nonneg m) (zpow_nonneg (by norm_num) e)
      have hpos : 0 < (2 : ℚ) ^ (m₂.log2 + 1 + e₂ : Int) := zpow_pos (by norm_num) _
      exact mul_lt_mul'' (size_lt_two_zpow m e) (size_lt_two_zpow m₂ e₂) hnonneg
        (mul_nonneg (Nat.cast_nonneg m₂) (zpow_nonneg (by norm_num) e₂))
    rw [← zpow_add₀ (by norm_num)] at hhigh
    have hlt := (zpow_lt_zpow_iff_right₀ htwo).mp (hlow.trans_lt (hsize ▸ hhigh))
    simp only [totalExponent]
    omega
  have htarget := h.target
  rw [targetExponent_eq] at htarget
  obtain ⟨x, hx⟩ : ∃ x, x = min (e₁ - e₂)
    (Format.binary64.targetExponent (totalExponent m₁ e₁ - totalExponent m₂ e₂)) := ⟨_, rfl⟩
  have hxe : x ≤ e := by
    rw [hx, targetExponent_eq]
    omega
  have hxdiff : x ≤ e₁ - e₂ := hx ▸ min_le_left _ _
  have hshift : e₁ - ((e₁ - e₂ - x).toNat : Int) = x + e₂ := by omega
  have hdividend : m₁ * 2 ^ (e₁ - e₂ - x).toNat = m * 2 ^ (e - x).toNat * m₂ := by
    rw [size_mul_size, ← size_mul_two_pow m₁ (e₁ - e₂ - x).toNat e₁, hshift] at hsize
    have hnat := (eq_mul_two_pow_of_size hsize (by omega)).1
    rw [hnat, show e + e₂ - (x + e₂) = e - x by omega]
    ring
  have hcore : divCore Format.binary64 m₁ e₁ m₂ e₂ = (m * 2 ^ (e - x).toNat, x, .exact) := by
    simp only [divCore, ← hx, Nat.shiftLeft_eq, hdividend, Nat.mul_div_cancel _ h₂,
      Nat.mul_mod_left, accuracyOfFraction, ↓reduceIte]
  have hround := roundWithAccuracy_of_canonical h (s / t) (e - x).toNat
  rw [show e - ((e - x).toNat : Int) = x by omega] at hround
  rw [div_finite, hcore]
  exact hround

theorem size_pos (hm : 0 < m) (e : Int) : 0 < size m e :=
  mul_pos (Nat.cast_pos.mpr hm) (zpow_pos (by norm_num) e)

theorem Canonical.size_lt (h : Canonical m e) (hmax : e ≤ 971) : size m e < 2 ^ (1024 : Int) := by
  have hm : (m : ℚ) < 2 ^ (53 : Int) := by exact_mod_cast h.lt
  have he : (2 : ℚ) ^ e ≤ 2 ^ (971 : Int) := zpow_le_zpow_right₀ (by norm_num) hmax
  calc size m e ≤ m * 2 ^ (971 : Int) := mul_le_mul_of_nonneg_left he (Nat.cast_nonneg m)
    _ < 2 ^ (53 : Int) * 2 ^ (971 : Int) := mul_lt_mul_of_pos_right hm (by positivity)
    _ = 2 ^ (1024 : Int) := by rw [← zpow_add₀ (by norm_num)]; rfl

theorem Canonical.le_size (h : Canonical m e) : 2 ^ (-1074 : Int) ≤ size m e := by
  have hm : (1 : ℚ) ≤ m := Nat.one_le_cast.mpr h.pos
  have he : (2 : ℚ) ^ (-1074 : Int) ≤ 2 ^ e := zpow_le_zpow_right₀ (by norm_num) h.least
  exact he.trans (le_mul_of_one_le_left (by positivity) hm)

/-- A number of at most 53 bits and some zeros is not rounded. -/
theorem round_of_lt (hm : 0 < m) (hlt : m < 2 ^ 53) (s : Sign) (k : Nat) :
    ∃ n f, ∃ h : Canonical n f, 2 ^ 52 ≤ n ∧ size n f = size m k ∧ f ≤ k ∧
      UnpackedFloat.round Format.binary64 s m k = .finite s n f h.pos := by
  have hne : m ≠ 0 := Nat.pos_iff_ne_zero.mp hm
  have hlog : m.log2 < 53 := (Nat.log2_lt hne).mpr hlt
  have htarget : Format.binary64.targetExponent (totalExponent m k) = k - (52 - m.log2 : Nat) := by
    rw [targetExponent_eq, totalExponent]
    omega
  have hfull : 2 ^ 52 ≤ m * 2 ^ (52 - m.log2) := by
    calc 2 ^ 52 = 2 ^ m.log2 * 2 ^ (52 - m.log2) := by
          rw [← pow_add, show m.log2 + (52 - m.log2) = 52 by omega]
      _ ≤ m * 2 ^ (52 - m.log2) := Nat.mul_le_mul_right _ (Nat.log2_self_le hne)
  have hless : m * 2 ^ (52 - m.log2) < 2 ^ 53 := by
    calc m * 2 ^ (52 - m.log2) < 2 ^ (m.log2 + 1) * 2 ^ (52 - m.log2) :=
          Nat.mul_lt_mul_of_pos_right Nat.lt_log2_self (by positivity)
      _ = 2 ^ 53 := by rw [← pow_add, show m.log2 + 1 + (52 - m.log2) = 53 by omega]
  have h : Canonical (m * 2 ^ (52 - m.log2)) (k - (52 - m.log2 : Nat)) :=
    ⟨by omega, hless, by omega, Or.inl hfull⟩
  refine ⟨_, _, h, hfull, size_mul_two_pow m _ k, by omega, ?_⟩
  have hround := roundWithAccuracy_of_canonical h s 0
  rw [pow_zero, Nat.mul_one, Nat.cast_zero, Int.sub_zero] at hround
  have hamount : ((k : Int) - (k - (52 - m.log2 : Nat))).toNat = 52 - m.log2 := by omega
  have hdecrease : decreaseExponent m k (k - (52 - m.log2 : Nat)) =
      (m * 2 ^ (52 - m.log2), (k : Int) - (52 - m.log2 : Nat)) := by
    simp only [decreaseExponent, hamount, Nat.shiftLeft_eq]
  rw [UnpackedFloat.round]
  dsimp only
  rw [htarget, hdecrease]
  exact hround

theorem size_zero_right (m : Nat) : size m 0 = m := by
  rw [size, zpow_zero, mul_one]

theorem size_shiftLeft (m : Nat) : size (m <<< 53) (-53) = m := by
  rw [Nat.shiftLeft_eq, ← size_zero_right m, ← size_mul_two_pow m 53 0]
  rfl

theorem digits_ne_zero (h : Canonical m e) {digits : Nat} {exponent : Int}
    (hsize : (digits : ℚ) * 10 ^ exponent = size m e) : digits ≠ 0 := by
  rintro rfl
  rw [Nat.cast_zero, zero_mul] at hsize
  exact (size_pos h.pos e).ne hsize

/-- A decimal that is neither too large nor too small is a product or a quotient. -/
theorem ofScientific_eq {digits : Nat} {exponent : Int} (hdigits : 0 < digits)
    (hmax : exponent ≤ 2048) (hmin : -(2048 + digits.log2) ≤ exponent) :
    UnpackedFloat.ofScientific Format.binary64 digits exponent =
      if 0 ≤ exponent then
        UnpackedFloat.mul Format.binary64
          (.finite .positive (digits <<< 53) (-53) (Nat.shiftLeft_pos_iff.mpr hdigits))
          (.finite .positive (10 ^ exponent.toNat) 0 (Nat.pow_pos (Nat.succ_pos 9)))
      else
        UnpackedFloat.div Format.binary64 (.finite .positive digits 0 hdigits)
          (.finite .positive (10 ^ (-exponent).toNat) 0 (Nat.pow_pos (Nat.succ_pos 9))) := by
  rw [UnpackedFloat.ofScientific, dif_neg hdigits.ne', if_neg (by norm_num; omega),
    if_neg (by norm_num; omega)]
  rfl

/-- A decimal whose size a double can keep is not rounded. -/
theorem ofScientific_of_canonical (h : Canonical m e) {digits : Nat} {exponent : Int}
    (hsize : (digits : ℚ) * 10 ^ exponent = size m e) (hmax : exponent ≤ 2048)
    (hmin : -(2048 + digits.log2) ≤ exponent) :
    UnpackedFloat.ofScientific Format.binary64 digits exponent = .finite .positive m e h.pos := by
  have hdigits := Nat.pos_of_ne_zero (digits_ne_zero h hsize)
  rw [ofScientific_eq hdigits hmax hmin]
  by_cases hsign : 0 ≤ exponent
  · have hexponent : exponent = (exponent.toNat : Int) := by omega
    rw [if_pos hsign]
    refine mul_of_canonical h .positive .positive _ _ ?_ ?_
    · rw [size_shiftLeft, size_zero_right, ← hsize, hexponent, zpow_natCast]
      push_cast
      rw [Int.toNat_natCast]
    · have hshift : 2 ^ 53 ≤ digits <<< 53 := by
        rw [Nat.shiftLeft_eq]
        exact Nat.le_mul_of_pos_left _ (by omega)
      calc 2 ^ 52 ≤ digits <<< 53 := by omega
        _ ≤ digits <<< 53 * 10 ^ exponent.toNat :=
          Nat.le_mul_of_pos_right _ (Nat.pow_pos (Nat.succ_pos 9))
  · have hexponent : exponent = -((-exponent).toNat : Int) := by omega
    rw [if_neg hsign]
    have hpow : (10 : ℚ) ^ (-exponent).toNat ≠ 0 := by positivity
    refine div_of_canonical h .positive .positive _ _ ?_
    rw [size_zero_right, size_zero_right, ← hsize]
    nth_rewrite 1 [hexponent]
    rw [zpow_neg, zpow_natCast]
    push_cast
    field_simp

end Recalc.Binary64
