import Recalc.Proofs.Number.ReadBack

namespace Recalc.Binary64

open Float.Model Float.Model.UnpackedFloat

variable {m n k : Nat} {e f : Int}

theorem shiftRight_succ (em : ExtendedMantissa) (k : Nat) :
    em >>> (k + 1) = (em >>> k).shiftRightOne := rfl

theorem mantissa_shiftRight (em : ExtendedMantissa) (k : Nat) :
    (em >>> k).mantissa = em.mantissa / 2 ^ k := by
  induction k with
  | zero =>
    rw [pow_zero, Nat.div_one]
    rfl
  | succ k ih =>
    rw [shiftRight_succ, ExtendedMantissa.shiftRightOne, ih, Nat.div_div_eq_div_mul, pow_succ]

theorem roundBit_shiftRight_succ (em : ExtendedMantissa) (k : Nat) :
    (em >>> (k + 1)).roundBit = (em.mantissa / 2 ^ k % 2 != 0) := by
  rw [shiftRight_succ, ExtendedMantissa.shiftRightOne, mantissa_shiftRight]

theorem mantissa_ofMantissaAndAccuracy (m : Nat) (accuracy : Accuracy) :
    (ExtendedMantissa.ofMantissaAndAccuracy m accuracy).mantissa = m := by
  cases accuracy with
  | exact => rfl
  | inexact order => cases order <;> rfl

theorem roundedMantissa_bounds (em : ExtendedMantissa) :
    em.mantissa ≤ em.roundedMantissa ∧ em.roundedMantissa ≤ em.mantissa + em.roundBit.toNat := by
  obtain ⟨mantissa, round, sticky⟩ := em
  cases round <;> cases sticky <;> simp [ExtendedMantissa.roundedMantissa,
    ExtendedMantissa.accuracy, Accuracy.roundToNearestEven]
  omega

/-- Halfway between two neighbours the odd one is left. -/
theorem roundedMantissa_of_odd {em : ExtendedMantissa} (hround : em.roundBit = true)
    (hodd : em.mantissa % 2 = 1) : em.roundedMantissa = em.mantissa + 1 := by
  obtain ⟨mantissa, round, sticky⟩ := em
  obtain rfl : round = true := hround
  have hodd : mantissa % 2 = 1 := hodd
  cases sticky <;> simp [ExtendedMantissa.roundedMantissa, ExtendedMantissa.accuracy,
    Accuracy.roundToNearestEven, hodd]

/-- The size `m · 2 ^ e` is shortened to at most 53 bits: `k` bits are dropped, and they have been
rounded into the `r` that is left. -/
structure Shortened (m : Nat) (e : Int) (k r : Nat) : Prop where
  least : -1074 ≤ e + k
  lt : m < 2 ^ (53 + k)
  full : k = 0 ∨ e + k = -1074 ∨ 2 ^ (52 + k) ≤ m
  le : m / 2 ^ k ≤ r
  carry : r ≤ m / 2 ^ k + 1
  half : ∀ j, k = j + 1 →
    r ≤ (m / 2 ^ j + 1) / 2 ∧ (m / 2 ^ j % 4 = 3 → r = (m / 2 ^ j + 1) / 2)

theorem exists_shortened (m : Nat) (e : Int) (accuracy : Accuracy) :
    ∃ (k : Nat) (em : ExtendedMantissa),
      shiftToTargetExponent Format.binary64 m e accuracy = (em, e + k) ∧
        Shortened m e k em.roundedMantissa := by
  obtain ⟨k, hk⟩ : ∃ k, k = (Format.binary64.targetExponent (totalExponent m e) - e).toNat :=
    ⟨_, rfl⟩
  obtain ⟨em, hem⟩ : ∃ em, em = ExtendedMantissa.ofMantissaAndAccuracy m accuracy >>> k := ⟨_, rfl⟩
  have hmantissa : em.mantissa = m / 2 ^ k := by
    rw [hem, mantissa_shiftRight, mantissa_ofMantissaAndAccuracy]
  obtain ⟨hle, hcarry⟩ := roundedMantissa_bounds em
  have hbit := em.roundBit.toNat_le
  refine ⟨k, em, by rw [hem, hk]; rfl, ?_⟩
  rw [targetExponent_eq, totalExponent] at hk
  constructor
  case least => omega
  case lt => exact Nat.lt_log2_self.trans_le (Nat.pow_le_pow_right (by norm_num) (by omega))
  case full =>
    by_cases hshift : k = 0 ∨ e + k = -1074
    · exact hshift.imp_right Or.inl
    · have hlog : m.log2 = 52 + k := by omega
      have hne : m ≠ 0 := by
        rintro rfl
        rw [Nat.log2_zero] at hlog
        omega
      exact Or.inr (Or.inr (hlog ▸ Nat.log2_self_le hne))
  case le => rwa [hmantissa] at hle
  case carry => omega
  case half =>
    rintro j rfl
    have hround : em.roundBit = (m / 2 ^ j % 2 != 0) := by
      rw [hem, roundBit_shiftRight_succ, mantissa_ofMantissaAndAccuracy]
    rw [pow_succ, ← Nat.div_div_eq_div_mul] at hmantissa
    constructor
    · by_cases hodd : m / 2 ^ j % 2 = 0
      · rw [hround, hodd] at hcarry
        change em.roundedMantissa ≤ em.mantissa + 0 at hcarry
        omega
      · omega
    · intro hodd
      have hup : em.roundBit = true := by
        rw [hround, bne_iff_ne]
        omega
      rw [roundedMantissa_of_odd hup (by omega)]
      omega

theorem shiftToTargetExponent_of_lt (hlt : m < 2 ^ 53) (hleast : -1074 ≤ e) :
    shiftToTargetExponent Format.binary64 m e .exact = (⟨m, false, false⟩, e) := by
  have hlog : m.log2 ≤ 52 := by
    by_cases hm : m = 0
    · rw [hm, Nat.log2_zero]
      omega
    · exact Nat.le_of_lt_succ ((Nat.log2_lt hm).mpr hlt)
  have hnone : (Format.binary64.targetExponent (totalExponent m e) - e).toNat = 0 := by
    rw [targetExponent_eq, totalExponent]
    omega
  rw [shiftToTargetExponent, shiftToExponent, hnone, Nat.cast_zero, Int.add_zero]
  rfl

/-- Rounding leaves at most 53 bits, or makes a power of two of them. -/
theorem roundWithAccuracy_eq (s : Sign) (m : Nat) (e : Int) (accuracy : Accuracy) :
    ∃ k r : Nat, Shortened m e k r ∧
      roundWithAccuracy Format.binary64 s m e accuracy =
        if h : r = 0 then .zero s
        else if r < 2 ^ 53 then .finite s r (e + k) (Nat.pos_of_ne_zero h)
        else .finite s (2 ^ 52) (e + k + 1) (by decide) := by
  obtain ⟨k, em, hfirst, hshort⟩ := exists_shortened m e accuracy
  refine ⟨k, em.roundedMantissa, hshort, ?_⟩
  rw [roundWithAccuracy, hfirst]
  dsimp only
  by_cases hzero : em.roundedMantissa = 0
  · rw [hzero, shiftToTargetExponent_of_lt (by norm_num) hshort.least]
    rfl
  rw [dif_neg hzero]
  by_cases hlt : em.roundedMantissa < 2 ^ 53
  · rw [shiftToTargetExponent_of_lt hlt hshort.least, if_pos hlt]
    exact dif_neg hzero
  · have hfloor : m / 2 ^ k < 2 ^ 53 := by
      rw [Nat.div_lt_iff_lt_mul (by positivity), ← pow_add]
      exact hshort.lt
    have htop : em.roundedMantissa = 2 ^ 52 * 2 ^ 1 := by
      have hcarry := hshort.carry
      omega
    have hcanonical : Canonical (2 ^ 52) (e + k + 1) :=
      ⟨by norm_num, by norm_num, by have := hshort.least; omega, Or.inl le_rfl⟩
    have hsecond := shiftToTargetExponent_of_canonical hcanonical 1
    rw [show e + k + 1 - ((1 : Nat) : Int) = e + k by omega, ← htop] at hsecond
    rw [hsecond, if_neg hlt]
    rfl

theorem size_lt_size_iff (m n : Nat) (e : Int) : size m e < size n e ↔ m < n := by
  rw [size, size, mul_lt_mul_iff_left₀ (zpow_pos (by norm_num) e), Nat.cast_lt]

/-- The least size that is rounded to infinity: halfway from the greatest double to the next size
of 53 bits. -/
def overflowAt : ℚ := size (2 ^ 54 - 1) 970

theorem size_lt_overflowAt_iff (he : e ≤ 970) :
    size m e < overflowAt ↔ m < (2 ^ 54 - 1) * 2 ^ (970 - e).toNat := by
  have hexponent : (970 : Int) - ((970 - e).toNat : Int) = e := by omega
  have hsize := size_mul_two_pow (2 ^ 54 - 1) (970 - e).toNat 970
  rw [hexponent] at hsize
  rw [overflowAt, ← hsize, size_lt_size_iff]

/-- A size overflows if it is rounded to more bits than the greatest exponent leaves room for. -/
theorem Shortened.lt_overflowAt_iff {r : Nat} (h : Shortened m e k r) (he : e ≤ 970) :
    size m e < overflowAt ↔ (if r < 2 ^ 53 then e + k else e + k + 1) ≤ 971 := by
  obtain ⟨c, hc⟩ : ∃ c : Nat, c = (970 - e).toNat := ⟨_, rfl⟩
  have hlt := h.lt
  have hpos : 0 < 2 ^ c := by positivity
  rw [size_lt_overflowAt_iff he, ← hc]
  rcases Nat.lt_trichotomy k (c + 1) with hk | rfl | hk
  · refine iff_of_true ?_ ?_
    · calc m < 2 ^ (53 + k) := hlt
        _ ≤ 2 ^ (53 + c) := Nat.pow_le_pow_right (by norm_num) (by omega)
        _ = 2 ^ 53 * 2 ^ c := pow_add _ _ _
        _ ≤ (2 ^ 54 - 1) * 2 ^ c := Nat.mul_le_mul_right _ (by norm_num)
    · split <;> omega
  · -- The greatest exponent is left, and a carry is too much for it.
    obtain ⟨hle, hup⟩ := h.half c rfl
    have hbits : m / 2 ^ c < 2 ^ 54 := by
      rw [Nat.div_lt_iff_lt_mul hpos, ← pow_add]
      rwa [show 53 + (c + 1) = 54 + c by omega] at hlt
    rw [← Nat.div_lt_iff_lt_mul hpos]
    split <;> omega
  · have hfull : 2 ^ (52 + k) ≤ m := by
      rcases h.full with hzero | hleast | hfull
      · omega
      · omega
      · exact hfull
    refine iff_of_false ?_ ?_
    · refine Nat.not_lt.mpr ?_
      calc (2 ^ 54 - 1) * 2 ^ c ≤ 2 ^ 54 * 2 ^ c := Nat.mul_le_mul_right _ (by norm_num)
        _ = 2 ^ (54 + c) := (pow_add _ _ _).symm
        _ ≤ 2 ^ (52 + k) := Nat.pow_le_pow_right (by norm_num) (by omega)
        _ ≤ m := hfull
    · split <;> omega

theorem isFinite_packComponents {biased : BitVec 11} (htop : biased ≠ -1#11) (s : Sign)
    (fraction : BitVec 52) :
    (UnpackedFloat.unpack Format.binary64
      (packComponents Format.binary64 s biased fraction)).isFinite = true := by
  have hunpacks := unpacks s biased fraction
  generalize UnpackedFloat.unpack Format.binary64
    (packComponents Format.binary64 s biased fraction) = f at hunpacks
  cases hunpacks with
  | infinity hbiased | notANumber hbiased => exact absurd hbiased htop
  | zero | small | full => rfl

theorem isFinite_pack_iff (s : Sign) (hm : 0 < m) :
    (Float.Model.pack (.finite s m e hm)).unpack.isFinite = true ↔ e ≤ 971 := by
  change (UnpackedFloat.unpack Format.binary64
    (UnpackedFloat.pack Format.binary64 (.finite s m e hm))).isFinite = true ↔ _
  rw [pack_finite]
  split
  next htop =>
    have htop : 2 ^ 11 ≤ (e + 1075).toNat + 1 := htop
    have hinfinite : (UnpackedFloat.unpack Format.binary64
        (packedInfinity Format.binary64 s)).isFinite = false := by
      cases s <;> rfl
    refine iff_of_false ?_ (by omega)
    rw [hinfinite]
    exact Bool.false_ne_true
  next hfits =>
    have hfits : ¬ 2 ^ 11 ≤ (e + 1075).toNat + 1 := hfits
    refine iff_of_true ?_ (by omega)
    split
    next =>
      refine isFinite_packComponents (fun hbiased => ?_) s _
      have hnat := congrArg BitVec.toNat hbiased
      rw [BitVec.toNat_ofNat] at hnat
      norm_num at hnat
      omega
    next => exact isFinite_packComponents (by decide) s _

/-- Rounding gives infinity for the sizes from `overflowAt` on, and for no others. -/
theorem isFinite_roundWithAccuracy_iff (he : e ≤ 970) (s : Sign) (accuracy : Accuracy) :
    (Float.Model.pack (roundWithAccuracy Format.binary64 s m e accuracy)).unpack.isFinite = true ↔
      size m e < overflowAt := by
  obtain ⟨k, r, hshort, hround⟩ := roundWithAccuracy_eq s m e accuracy
  rw [hshort.lt_overflowAt_iff he, hround]
  by_cases hzero : r = 0
  · have hfinite : (Float.Model.pack (.zero s)).unpack.isFinite = true := by
      cases s <;> rfl
    rw [dif_pos hzero]
    refine iff_of_true hfinite ?_
    rw [hzero, if_pos (by norm_num)]
    rcases hshort.full with rfl | hleast | hfull
    · omega
    · omega
    · have hpos : 1 ≤ m / 2 ^ k := by
        rw [Nat.le_div_iff_mul_le (by positivity), one_mul]
        exact (Nat.pow_le_pow_right (by norm_num) (by omega)).trans hfull
      have hle := hshort.le
      omega
  rw [dif_neg hzero]
  by_cases hlt : r < 2 ^ 53
  · rw [if_pos hlt, if_pos hlt]
    exact isFinite_pack_iff s _
  · rw [if_neg hlt, if_neg hlt]
    exact isFinite_pack_iff s _

variable {m₁ m₂ : Nat} {e₁ e₂ : Int}

theorem isFinite_mul_iff (h₁ : 0 < m₁) (h₂ : 0 < m₂) (he : e₁ + e₂ ≤ 970) (s t : Sign) :
    (Float.Model.pack (UnpackedFloat.mul Format.binary64 (.finite s m₁ e₁ h₁)
      (.finite t m₂ e₂ h₂))).unpack.isFinite = true ↔ size m₁ e₁ * size m₂ e₂ < overflowAt := by
  rw [size_mul_size]
  exact isFinite_roundWithAccuracy_iff he (s * t) .exact

theorem isFinite_div_iff (h₁ : 0 < m₁) (h₂ : 0 < m₂) (he : e₁ - e₂ ≤ 970) (s t : Sign) :
    (Float.Model.pack (UnpackedFloat.div Format.binary64 (.finite s m₁ e₁ h₁)
      (.finite t m₂ e₂ h₂))).unpack.isFinite = true ↔
        size m₁ e₁ < overflowAt * size m₂ e₂ := by
  obtain ⟨x, hx⟩ : ∃ x, x = min (e₁ - e₂)
    (Format.binary64.targetExponent (totalExponent m₁ e₁ - totalExponent m₂ e₂)) := ⟨_, rfl⟩
  have hxle : x ≤ e₁ - e₂ := hx ▸ min_le_left _ _
  -- What the division leaves over is less than a bit, and the bound is a whole number of them.
  have hquotient : size (m₁ <<< (e₁ - e₂ - x).toNat / m₂) x < overflowAt ↔
      size m₁ e₁ < overflowAt * size m₂ e₂ := by
    have hleft : e₁ - ((e₁ - e₂ - x).toNat : Int) = x + e₂ := by omega
    have hright : 970 + e₂ - ((970 - x).toNat : Int) = x + e₂ := by omega
    rw [size_lt_overflowAt_iff (by omega), Nat.div_lt_iff_lt_mul h₂, overflowAt, size_mul_size,
      ← size_mul_two_pow m₁ (e₁ - e₂ - x).toNat, ← size_mul_two_pow (_ * m₂) (970 - x).toNat, hleft,
      hright, size_lt_size_iff, Nat.shiftLeft_eq, Nat.mul_right_comm]
  rw [← hquotient, div_finite, divCore, ← hx]
  exact isFinite_roundWithAccuracy_iff (e := x) (by omega) (s / t) _

theorem overflowAt_eq : overflowAt = 2 ^ 1024 - 2 ^ 970 := by
  have hbits : ((2 ^ 54 - 1 : Nat) : ℚ) = 2 ^ 54 - 1 := by norm_num
  rw [overflowAt, size, hbits, show (970 : Int) = ((970 : Nat) : Int) from rfl, zpow_natCast,
    sub_mul, ← pow_add, one_mul]

theorem one_lt_overflowAt : 1 < overflowAt := by
  have hnat : 1 + 2 ^ 970 < 2 ^ 1024 := by decide +kernel
  rw [overflowAt_eq, lt_sub_iff_add_lt]
  exact_mod_cast hnat

theorem overflowAt_lt : overflowAt < 2 ^ (1024 : Int) := by
  rw [overflowAt_eq]
  exact sub_lt_self _ (by positivity)

theorem lt_of_size_lt (hm : 0 < m) {k : Int} (h : size m e < 2 ^ k) : e < k := by
  have hlow := (two_zpow_le_size hm e).trans_lt h
  have hlt := (zpow_lt_zpow_iff_right₀ (by norm_num)).mp hlow
  omega

theorem Canonical.lt_of_one_le_size (h : Canonical m e) (hsize : 1 ≤ size m e) : -54 < e := by
  have hhigh := hsize.trans_lt (size_lt_two_zpow m e)
  have hpos := (one_lt_zpow_iff_right₀ (by norm_num)).mp hhigh
  have hlog := (Nat.log2_lt h.pos.ne').mpr h.lt
  omega

end Recalc.Binary64

namespace Recalc.Number

theorem isFinite_neg (x : Float) : isFinite (-x) = isFinite x := by
  have hneg : (-x).toModel.unpack = (Float.Model.pack x.toModel.unpack.neg).unpack := rfl
  rw [isFinite_eq, isFinite_eq]
  cases hx : x.toModel.unpack with
  | finite s m e hm =>
    rw [unpack_neg_of_finite hx]
    rfl
  | zero s =>
    rw [unpack_neg_of_zero hx]
    rfl
  | infinity s =>
    rw [hneg, hx]
    cases s <;> rfl
  | notANumber =>
    rw [hneg, hx]
    rfl

end Recalc.Number

namespace Recalc.Decimal

open Float.Model Float.Model.UnpackedFloat Binary64

variable {digits : Nat} {exponent : Int}

theorem lt_mul_ten_pow_iff (digits k : Nat) (bound : ℚ) :
    (digits : ℚ) < bound * 10 ^ k ↔ (digits : ℚ) * 10 ^ (-k : Int) < bound := by
  rw [zpow_neg, zpow_natCast, ← div_eq_mul_inv, div_lt_iff₀ (by positivity)]

theorem isFinite_ofScientific_iff (hpos : 0 < digits) (hle : exponent ≤ 2048)
    (hge : -(2048 + digits.log2) ≤ exponent) :
    (Float.Model.pack
      (UnpackedFloat.ofScientific Format.binary64 digits exponent)).unpack.isFinite = true ↔
        (digits : ℚ) * 10 ^ exponent < overflowAt := by
  rw [ofScientific_eq hpos hle hge]
  by_cases hsign : 0 ≤ exponent
  · rw [if_pos hsign]
    obtain ⟨k, rfl⟩ := Int.eq_ofNat_of_zero_le hsign
    rw [isFinite_mul_iff _ _ (by norm_num), size_shiftLeft, size_zero_right, Int.toNat_natCast,
      zpow_natCast, Nat.cast_pow, Nat.cast_ofNat]
  · rw [if_neg hsign]
    obtain ⟨k, rfl⟩ : ∃ k : Nat, exponent = -k := ⟨exponent.natAbs, by omega⟩
    rw [isFinite_div_iff _ _ (by norm_num), size_zero_right, size_zero_right, neg_neg,
      Int.toNat_natCast, Nat.cast_pow, Nat.cast_ofNat, lt_mul_ten_pow_iff]

theorem isFinite_scientific_iff (hpos : 0 < digits) (hle : exponent ≤ 2048)
    (hge : -(2048 + digits.log2) ≤ exponent) :
    Number.isFinite (Float.ofScientific digits (exponent < 0) exponent.natAbs) = true ↔
      (digits : ℚ) * 10 ^ exponent < overflowAt := by
  rw [Number.isFinite_eq, Float.ofScientific]
  split
  next hfast =>
    -- Both are kept without rounding, and neither is large.
    obtain ⟨n, f, hn, -, hdigits, hleft⟩ := unpack_toFloat hpos hfast.1
    obtain ⟨n', f', hn', hpower, hright⟩ :=
      unpack_power exponent.natAbs (Nat.lt_succ_of_le hfast.2)
    have hf : f < 53 := by
      refine lt_of_size_lt hn.pos ?_
      rw [hdigits]
      exact_mod_cast hfast.1
    have hten : (10 : ℚ) ^ exponent.natAbs ≤ 10 ^ 22 := pow_le_pow_right₀ (by norm_num) hfast.2
    have hf' : f' < 74 := by
      refine lt_of_size_lt hn'.pos ?_
      rw [hpower]
      exact hten.trans_lt (by norm_num)
    have hlow : -54 < f' := by
      refine hn'.lt_of_one_le_size ?_
      rw [hpower]
      exact one_le_pow₀ (by norm_num)
    split
    next hsign =>
      rw [decide_eq_true_eq] at hsign
      have hexponent : exponent = -(exponent.natAbs : Int) := by omega
      have hle : f - f' ≤ 970 := by omega
      have hquotient := isFinite_div_iff hn.pos hn'.pos hle .positive .positive
      rw [← hleft, ← hright, hdigits, hpower, lt_mul_ten_pow_iff, ← hexponent] at hquotient
      exact hquotient
    next hsign =>
      rw [decide_eq_true_eq] at hsign
      have hexponent : exponent = (exponent.natAbs : Int) := by omega
      have hle : f + f' ≤ 970 := by omega
      have hproduct := isFinite_mul_iff hn.pos hn'.pos hle .positive .positive
      rw [← hleft, ← hright, hdigits, hpower, ← zpow_natCast, ← hexponent] at hproduct
      exact hproduct
  next =>
    rw [signed_natAbs]
    exact isFinite_ofScientific_iff hpos hle hge

/-- Digits are read as a finite number exactly if they spell less than `overflowAt`. -/
theorem isFinite_magnitude_iff (digits : Nat) (exponent : Int) :
    Number.isFinite (magnitude digits exponent) = true ↔
      (digits : ℚ) * 10 ^ exponent < overflowAt := by
  rw [magnitude]
  split
  next hzero =>
    rw [hzero, Nat.cast_zero, zero_mul]
    exact iff_of_true rfl (one_pos.trans one_lt_overflowAt)
  next hne =>
    split
    next hlarge =>
      refine iff_of_false (by decide +kernel) (not_lt.mpr ?_)
      calc overflowAt ≤ 2 ^ (1024 : Int) := overflowAt_lt.le
        _ ≤ 2 ^ (1074 : Int) := zpow_le_zpow_right₀ (by norm_num) (by norm_num)
        _ ≤ 10 ^ (scaleBound : Int) := two_zpow_lt_ten_zpow.le
        _ ≤ digits * 10 ^ exponent := ten_zpow_le_of_lt hne hlarge
    next hle =>
      split
      next hsmall =>
        refine iff_of_true rfl ?_
        calc (digits : ℚ) * 10 ^ exponent < 10 ^ (-(scaleBound : Int)) := lt_ten_zpow_of_lt hsmall
          _ ≤ 1 := zpow_le_one_of_nonpos₀ (by norm_num) (by norm_num)
          _ < overflowAt := one_lt_overflowAt
      next hge =>
        rw [scaleBound] at hle hge
        exact isFinite_scientific_iff (Nat.pos_of_ne_zero hne) (by omega) (by omega)

theorem magnitude_eq_infinity (h : 2 ^ 1024 - 2 ^ 970 ≤ (digits : ℚ) * 10 ^ exponent) :
    magnitude digits exponent = 1 / 0 := by
  obtain ⟨hfinite, -⟩ := Number.isFinite_or_eq_infinity (nonnegative_magnitude digits exponent)
  refine hfinite.resolve_left fun hfinite => ?_
  rw [isFinite_magnitude_iff, overflowAt_eq] at hfinite
  exact absurd h (not_le.mpr hfinite)

/-- The number without its sign. -/
def unsigned (d : Decimal) : ℚ := d.digits * 10 ^ d.exponent

/-- A decimal is read as a finite number exactly if it is less than halfway from the greatest double
to the power of two behind it. -/
theorem isFinite_toFloat_iff (d : Decimal) :
    Number.isFinite d.toFloat = true ↔ d.unsigned < 2 ^ 1024 - 2 ^ 970 := by
  rw [← overflowAt_eq, unsigned, ← isFinite_magnitude_iff, toFloat]
  split
  · rw [Number.isFinite_neg]
  · rfl

end Recalc.Decimal
