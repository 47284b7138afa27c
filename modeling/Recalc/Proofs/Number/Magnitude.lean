import Recalc.Proofs.Number.Packing

namespace Recalc.Decimal

open Float.Model Float.Model.UnpackedFloat Binary64

variable {digits : Nat} {exponent : Int} {m : Nat} {e : Int}

theorem unpack_toFloat (hpos : 0 < digits) (hlt : digits < 2 ^ 53) :
    ∃ n f, ∃ h : Canonical n f, 2 ^ 52 ≤ n ∧ size n f = digits ∧
      digits.toUInt64.toFloat.toModel.unpack = .finite .positive n f h.pos := by
  obtain ⟨n, f, h, hfull, hsize, hle, hround⟩ := round_of_lt hpos hlt .positive 0
  refine ⟨n, f, h, hfull, hsize.trans (size_zero_right digits), ?_⟩
  have hnat : digits.toUInt64.toNat = digits := Nat.mod_eq_of_lt (hlt.trans (by norm_num))
  have hcompare : compare (digits : Int) 0 = .gt := by
    rw [compare_gt_iff_gt]
    omega
  have hunpacked : UnpackedFloat.ofUInt64 Format.binary64 digits.toUInt64 =
      .finite .positive n f h.pos := by
    rw [UnpackedFloat.ofUInt64, UnpackedFloat.ofNat, UnpackedFloat.ofInt, UnpackedFloat.normalize,
      hnat, hcompare]
    exact hround
  exact unpack_pack_of_eq h (by omega) hunpacked

theorem unpack_power (k : Nat) (hk : k < Float.exactlyRepresentablePowersOfTen.size) :
    ∃ n f, ∃ h : Canonical n f, size n f = (10 : ℚ) ^ k ∧
      Float.exactlyRepresentablePowersOfTen[k].toModel.unpack = .finite .positive n f h.pos := by
  have htable : ∀ i : Fin 23, Float.exactlyRepresentablePowersOfTen[i] =
      Float.ofModel (Float.Model.pack (UnpackedFloat.round Format.binary64 .positive (5 ^ i.val) i)) := by
    decide +kernel
  have hk : k < 23 := hk
  have hlt : 5 ^ k < 2 ^ 53 := (Nat.pow_le_pow_right (by norm_num) (Nat.le_of_lt_succ hk)).trans_lt
    (by norm_num)
  obtain ⟨n, f, h, -, hsize, hle, hround⟩ := round_of_lt (by positivity) hlt .positive k
  refine ⟨n, f, h, ?_, ?_⟩
  · rw [hsize, size, zpow_natCast]
    push_cast
    rw [← mul_pow]
    norm_num
  · have hentry := htable ⟨k, hk⟩
    exact (congrArg (fun x => x.toModel.unpack) hentry).trans (unpack_pack_of_eq h (by omega) hround)

theorem unpack_mul (h : Canonical m e) (hmax : e ≤ 971) {x y : Float} {n n' : Nat} {f f' : Int}
    {hn : 0 < n} {hn' : 0 < n'} (hx : x.toModel.unpack = .finite .positive n f hn)
    (hy : y.toModel.unpack = .finite .positive n' f' hn')
    (hsize : size n f * size n' f' = size m e) (hbits : 2 ^ 52 ≤ n * n') :
    (x * y).toModel.unpack = .finite .positive m e h.pos := by
  have hproduct := mul_of_canonical h .positive .positive hn hn' hsize hbits
  rw [← hx, ← hy] at hproduct
  exact unpack_pack_of_eq h hmax hproduct

theorem unpack_div (h : Canonical m e) (hmax : e ≤ 971) {x y : Float} {n n' : Nat} {f f' : Int}
    {hn : 0 < n} {hn' : 0 < n'} (hx : x.toModel.unpack = .finite .positive n f hn)
    (hy : y.toModel.unpack = .finite .positive n' f' hn')
    (hsize : size n f = size m e * size n' f') :
    (x / y).toModel.unpack = .finite .positive m e h.pos := by
  have hquotient := div_of_canonical h .positive .positive hn hn' hsize
  rw [← hx, ← hy] at hquotient
  exact unpack_pack_of_eq h hmax hquotient

theorem signed_natAbs (exponent : Int) :
    (if decide (exponent < 0) = true then Int.negOfNat exponent.natAbs
      else Int.ofNat exponent.natAbs) = exponent := by
  rw [Int.negOfNat_eq, Int.ofNat_eq_natCast]
  split
  next hsign =>
    rw [decide_eq_true_eq] at hsign
    omega
  next hsign =>
    rw [decide_eq_true_eq] at hsign
    omega

theorem unpack_ofScientific (h : Canonical m e) (hmax : e ≤ 971)
    (hsize : (digits : ℚ) * 10 ^ exponent = size m e) (hle : exponent ≤ 2048)
    (hge : -(2048 + digits.log2) ≤ exponent) :
    (Float.ofScientific digits (exponent < 0) exponent.natAbs).toModel.unpack =
      .finite .positive m e h.pos := by
  rw [Float.ofScientific]
  by_cases hfast : digits < 2 ^ 53 ∧ exponent.natAbs ≤ 22
  · -- The digits and the power of ten are both kept without rounding.
    have hpos : 0 < digits := Nat.pos_of_ne_zero (digits_ne_zero h hsize)
    obtain ⟨n, f, hn, hfull, hdigits, hleft⟩ := unpack_toFloat hpos hfast.1
    obtain ⟨n', f', hn', hpower, hright⟩ := unpack_power exponent.natAbs (Nat.lt_succ_of_le hfast.2)
    rw [← hdigits] at hsize
    rw [dif_pos hfast]
    by_cases hsign : exponent < 0
    · have hexponent : exponent = -(exponent.natAbs : Int) := by omega
      rw [hexponent, zpow_neg, zpow_natCast, ← hpower] at hsize
      rw [if_pos (decide_eq_true hsign)]
      exact unpack_div h hmax hleft hright
        ((mul_inv_eq_iff_eq_mul₀ (size_pos hn'.pos f').ne').mp hsize)
    · have hexponent : exponent = (exponent.natAbs : Int) := by omega
      rw [hexponent, zpow_natCast, ← hpower] at hsize
      rw [if_neg (mt of_decide_eq_true hsign)]
      exact unpack_mul h hmax hleft hright hsize
        (hfull.trans (Nat.le_mul_of_pos_right n hn'.pos))
  · rw [dif_neg hfast, signed_natAbs]
    exact unpack_pack_of_eq h hmax (ofScientific_of_canonical h hsize hle hge)

/-- The bound on the scale lies beyond all doubles. -/
theorem two_zpow_lt_ten_zpow : (2 : ℚ) ^ (1074 : Int) < 10 ^ (scaleBound : Int) := by
  have hnat : 2 ^ 1074 < 10 ^ scaleBound := by decide +kernel
  exact_mod_cast hnat

theorem ten_zpow_le_of_lt (hdigits : digits ≠ 0) (h : (scaleBound : Int) < exponent) :
    (10 : ℚ) ^ (scaleBound : Int) ≤ digits * 10 ^ exponent := by
  have hone : (1 : ℚ) ≤ digits := Nat.one_le_cast.mpr (Nat.pos_of_ne_zero hdigits)
  calc (10 : ℚ) ^ (scaleBound : Int) ≤ 10 ^ exponent := zpow_le_zpow_right₀ (by norm_num) h.le
    _ ≤ digits * 10 ^ exponent := le_mul_of_one_le_left (by positivity) hone

theorem lt_ten_zpow_of_lt (h : exponent < -(scaleBound + digits.log2 : Int)) :
    (digits : ℚ) * 10 ^ exponent < 10 ^ (-(scaleBound : Int)) := by
  have hlog : (digits : ℚ) < 10 ^ ((digits.log2 + 1 : Nat) : Int) := by
    have hlog : digits < 2 ^ (digits.log2 + 1) := Nat.lt_log2_self
    exact_mod_cast hlog.trans_le (Nat.pow_le_pow_left (by norm_num) _)
  calc (digits : ℚ) * 10 ^ exponent < 10 ^ ((digits.log2 + 1 : Nat) : Int) * 10 ^ exponent :=
        mul_lt_mul_of_pos_right hlog (by positivity)
    _ = 10 ^ ((digits.log2 + 1 : Nat) + exponent) := (zpow_add₀ (by norm_num) _ _).symm
    _ ≤ 10 ^ (-(scaleBound : Int)) := zpow_le_zpow_right₀ (by norm_num) (by omega)

theorem exponent_le_of_size (h : Canonical m e) (hmax : e ≤ 971)
    (hsize : (digits : ℚ) * 10 ^ exponent = size m e) : exponent ≤ scaleBound := by
  by_contra hgt
  have hlarge : size m e < size m e := by
    calc size m e < 2 ^ (1024 : Int) := h.size_lt hmax
      _ ≤ 2 ^ (1074 : Int) := zpow_le_zpow_right₀ (by norm_num) (by norm_num)
      _ < 10 ^ (scaleBound : Int) := two_zpow_lt_ten_zpow
      _ ≤ digits * 10 ^ exponent := ten_zpow_le_of_lt (digits_ne_zero h hsize) (not_le.mp hgt)
      _ = size m e := hsize
  exact lt_irrefl _ hlarge

theorem le_exponent_of_size (h : Canonical m e) (hsize : (digits : ℚ) * 10 ^ exponent = size m e) :
    -(scaleBound + digits.log2 : Int) ≤ exponent := by
  by_contra hlt
  have hsmall : size m e < size m e := by
    calc size m e = digits * 10 ^ exponent := hsize.symm
      _ < 10 ^ (-(scaleBound : Int)) := lt_ten_zpow_of_lt (not_le.mp hlt)
      _ < 2 ^ (-1074 : Int) := by
        rw [zpow_neg, zpow_neg]
        exact inv_strictAnti₀ (by positivity) two_zpow_lt_ten_zpow
      _ ≤ size m e := h.le_size
  exact lt_irrefl _ hsmall

/-- A decimal whose size a double can keep is read as that double. -/
theorem unpack_magnitude (h : Canonical m e) (hmax : e ≤ 971)
    (hsize : (digits : ℚ) * 10 ^ exponent = size m e) :
    (magnitude digits exponent).toModel.unpack = .finite .positive m e h.pos := by
  have hle := exponent_le_of_size h hmax hsize
  have hge := le_exponent_of_size h hsize
  rw [magnitude, if_neg (digits_ne_zero h hsize), if_neg hle.not_gt, if_neg hge.not_gt]
  rw [scaleBound] at hle hge
  exact unpack_ofScientific h hmax hsize (by omega) (by omega)

theorem nonnegative_mul {m n : Nat} {e f : Int} (hm : 0 < m) (hn : 0 < n) :
    Nonnegative (UnpackedFloat.mul Format.binary64 (.finite .positive m e hm)
      (.finite .positive n f hn)) :=
  nonnegative_roundWithAccuracy _ _ _

theorem nonnegative_div {m n : Nat} {e f : Int} (hm : 0 < m) (hn : 0 < n) :
    Nonnegative (UnpackedFloat.div Format.binary64 (.finite .positive m e hm)
      (.finite .positive n f hn)) :=
  nonnegative_roundWithAccuracy _ _ _

theorem nonnegative_ofScientific (hpos : 0 < digits) (hle : exponent ≤ 2048)
    (hge : -(2048 + digits.log2) ≤ exponent) :
    Nonnegative (UnpackedFloat.ofScientific Format.binary64 digits exponent) := by
  rw [ofScientific_eq hpos hle hge]
  by_cases hsign : 0 ≤ exponent
  · rw [if_pos hsign]
    exact nonnegative_mul _ _
  · rw [if_neg hsign]
    exact nonnegative_div _ _

/-- No decimal without a sign is read as less than zero. -/
theorem nonnegative_magnitude (digits : Nat) (exponent : Int) :
    Nonnegative (magnitude digits exponent).toModel.unpack := by
  rw [magnitude]
  split
  next => rfl
  next hne =>
    have hpos := Nat.pos_of_ne_zero hne
    split
    next => rfl
    next hle =>
      split
      next => rfl
      next hge =>
        rw [scaleBound] at hle hge
        rw [Float.ofScientific]
        split
        next hfast =>
          obtain ⟨n, f, hn, -, -, hleft⟩ := unpack_toFloat hpos hfast.1
          obtain ⟨n', f', hn', -, hright⟩ :=
            unpack_power exponent.natAbs (Nat.lt_succ_of_le hfast.2)
          split
          next =>
            have hquotient := nonnegative_div (e := f) (f := f') hn.pos hn'.pos
            rw [← hleft, ← hright] at hquotient
            exact hquotient.unpack_pack
          next =>
            have hproduct := nonnegative_mul (e := f) (f := f') hn.pos hn'.pos
            rw [← hleft, ← hright] at hproduct
            exact hproduct.unpack_pack
        next =>
          rw [signed_natAbs]
          exact (nonnegative_ofScientific hpos (by omega) (by omega)).unpack_pack

end Recalc.Decimal
