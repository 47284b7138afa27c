import Recalc.Number.Text
import Recalc.Proofs.Number.Rounding

namespace Recalc.Binary64

open Float.Model Float.Model.UnpackedFloat

variable {m : Nat} {e : Int}

theorem toNat_unpackMantissa (b : BitVec 64) :
    (@unpackMantissa Format.binary64 b).toNat = b.toNat % 2 ^ 52 := by
  simp [unpackMantissa, BitVec.extractLsb]

theorem toNat_unpackExponent (b : BitVec 64) :
    (@unpackExponent Format.binary64 b).toNat = b.toNat / 2 ^ 52 % 2 ^ 11 := by
  simp [unpackExponent, BitVec.extractLsb, Nat.shiftRight_eq_div_pow]

theorem toNat_unpackSign (b : BitVec 64) :
    (@unpackSign Format.binary64 b).toNat = b.toNat / 2 ^ 63 := by
  have hlt := b.isLt
  change (b.extractLsb 63 63).toNat = _
  rw [BitVec.extractLsb_toNat, Nat.shiftRight_eq_div_pow]
  omega

theorem toNat_packComponents (s : Sign) (biased : BitVec 11) (fraction : BitVec 52) :
    (packComponents Format.binary64 s biased fraction).toNat =
      2 ^ 63 * s.toBitVec.toNat + 2 ^ 52 * biased.toNat + fraction.toNat := by
  have hbiased := biased.isLt
  have hfraction := fraction.isLt
  rw [packComponents, BitVec.toNat_append, BitVec.toNat_append,
    ← Nat.shiftLeft_add_eq_or_of_lt hfraction, ← Nat.shiftLeft_add_eq_or_of_lt hbiased]
  simp only [Nat.shiftLeft_eq]
  ring

theorem toBitVec_ofBitVec (b : BitVec 1) : (Sign.ofBitVec b).toBitVec = b := by
  revert b
  decide

theorem ofBitVec_toBitVec (s : Sign) : Sign.ofBitVec s.toBitVec = s := by
  cases s <;> rfl

theorem packComponents_unpack (b : BitVec 64) :
    packComponents Format.binary64 (Sign.ofBitVec (@unpackSign Format.binary64 b))
      (@unpackExponent Format.binary64 b)
      (@unpackMantissa Format.binary64 b) = b := by
  apply BitVec.eq_of_toNat_eq
  have hlt := b.isLt
  rw [toNat_packComponents, toBitVec_ofBitVec, toNat_unpackSign, toNat_unpackExponent,
    toNat_unpackMantissa]
  omega

theorem unpackSign_packComponents (s : Sign) (biased : BitVec 11) (fraction : BitVec 52) :
    unpackSign (packComponents Format.binary64 s biased fraction) = s.toBitVec := by
  apply BitVec.eq_of_toNat_eq
  have hbiased := biased.isLt
  have hfraction := fraction.isLt
  have hsign := s.toBitVec.isLt
  have h := toNat_unpackSign (packComponents Format.binary64 s biased fraction)
  rw [toNat_packComponents] at h
  rw [h]
  omega

theorem toNat_cons_one (fraction : BitVec 52) :
    (1#1 ++ fraction).toNat = 2 ^ 52 + fraction.toNat := by
  rw [BitVec.toNat_append, ← Nat.shiftLeft_add_eq_or_of_lt fraction.isLt]
  rfl

theorem toNat_pos_of_ne_zero {w : Nat} {b : BitVec w} (h : b ≠ 0#w) : 0 < b.toNat :=
  Nat.pos_of_ne_zero fun hzero => h (BitVec.eq_of_toNat_eq hzero)

theorem finite_congr {n : Nat} {f : Int} (s : Sign) (hm : m = n) (he : e = f) (hpos : 0 < m)
    (hpos' : 0 < n) : UnpackedFloat.finite s m e hpos = .finite s n f hpos' := by
  subst hm he
  rfl

theorem unpack_eq (s : Sign) (biased : BitVec 11) (fraction : BitVec 52) :
    UnpackedFloat.unpack Format.binary64 (packComponents Format.binary64 s biased fraction) =
      if biased = -1#11 then if fraction = 0#52 then .infinity s else .notANumber
      else if biased = 0#11 then
        if h : fraction = 0#52 then .zero s
        else .finite s fraction.toNat (-1074) (toNat_pos_of_ne_zero h)
      else .finite s (2 ^ 52 + fraction.toNat) (biased.toNat - 1075)
        (Nat.add_pos_left (Nat.two_pow_pos 52) _) := by
  have hsign : Sign.ofBitVec (unpackSign (packComponents Format.binary64 s biased fraction)) = s := by
    rw [unpackSign_packComponents, ofBitVec_toBitVec]
  have hexponent : unpackExponent (packComponents Format.binary64 s biased fraction) = biased :=
    unpackExponent_packComponents ..
  have hmantissa : unpackMantissa (packComponents Format.binary64 s biased fraction) = fraction :=
    unpackMantissa_packComponents ..
  -- A proof that the size is positive depends on these parts, so they cannot be rewritten in place.
  generalize packComponents Format.binary64 s biased fraction = b at hsign hexponent hmantissa ⊢
  subst hsign hexponent hmantissa
  by_cases htop : unpackExponent b = -1#11
  · rw [if_pos htop]
    exact if_pos htop
  rw [if_neg htop]
  refine (if_neg htop).trans ?_
  by_cases hzero : unpackExponent b = 0#11
  · rw [if_pos hzero, if_pos hzero]
    by_cases hfraction : unpackMantissa b = 0#52
    · rw [dif_pos hfraction, dif_pos hfraction]
    · rw [dif_neg hfraction, dif_neg hfraction]
      refine finite_congr _ rfl ?_ _ _
      rw [hzero]
      rfl
  · rw [if_neg hzero, if_neg hzero]
    exact finite_congr _ (toNat_cons_one _) rfl _ _

theorem add_exponentBias (e : Int) :
    e + Format.binary64.exponentBias + Format.binary64.mantissaBitsWithoutImplicit = e + 1075 := by
  have hbias : Format.binary64.exponentBias = 1023 := rfl
  rw [hbias]
  norm_num
  ring

theorem pack_finite (hm : 0 < m) (s : Sign) :
    UnpackedFloat.pack Format.binary64 (.finite s m e hm) =
      if 2 ^ 11 ≤ (e + 1075).toNat + 1 then packedInfinity Format.binary64 s
      else if m.log2 + 1 = 53 then
        packComponents Format.binary64 s (BitVec.ofNat 11 (e + 1075).toNat) (BitVec.ofNat 52 m)
      else packComponents Format.binary64 s 0#11 (BitVec.ofNat 52 m) := by
  rw [← add_exponentBias]
  rfl

theorem pack_of_full (hm : 0 < m) (s : Sign) (hfull : 2 ^ 52 ≤ m) (hlt : m < 2 ^ 53)
    (hmax : e ≤ 971) :
    UnpackedFloat.pack Format.binary64 (.finite s m e hm) =
      packComponents Format.binary64 s (BitVec.ofNat 11 (e + 1075).toNat) (BitVec.ofNat 52 m) := by
  have hne : m ≠ 0 := Nat.pos_iff_ne_zero.mp hm
  have hlog : m.log2 + 1 = 53 := by
    have hle := (Nat.le_log2 hne).mpr hfull
    have hlt := (Nat.log2_lt hne).mpr hlt
    omega
  rw [pack_finite, if_neg (by omega), if_pos hlog]

theorem pack_of_not_full (hm : 0 < m) (s : Sign) (hlt : m < 2 ^ 52) :
    UnpackedFloat.pack Format.binary64 (.finite s m (-1074) hm) =
      packComponents Format.binary64 s 0#11 (BitVec.ofNat 52 m) := by
  have hne : m ≠ 0 := Nat.pos_iff_ne_zero.mp hm
  have hlog : m.log2 < 52 := (Nat.log2_lt hne).mpr hlt
  rw [pack_finite, if_neg (by decide), if_neg (by omega)]

/-- A double of this size is kept bit by bit. -/
theorem unpack_pack (h : Canonical m e) (hmax : e ≤ 971) (s : Sign) :
    (Float.Model.pack (.finite s m e h.pos)).unpack = .finite s m e h.pos := by
  have hlt := h.lt
  have hleast := h.least
  change UnpackedFloat.unpack Format.binary64
    (UnpackedFloat.pack Format.binary64 (.finite s m e h.pos)) = _
  by_cases hfull : 2 ^ 52 ≤ m
  · have hbiased : (BitVec.ofNat 11 (e + 1075).toNat).toNat = (e + 1075).toNat := by
      rw [BitVec.toNat_ofNat]
      omega
    have hne : ∀ b : BitVec 11, b.toNat = 0 ∨ b.toNat = 2047 →
        BitVec.ofNat 11 (e + 1075).toNat ≠ b := by
      rintro b hb rfl
      omega
    have hfraction : 2 ^ 52 + (BitVec.ofNat 52 m).toNat = m := by
      rw [BitVec.toNat_ofNat]
      omega
    rw [pack_of_full h.pos s hfull hlt hmax, unpack_eq, if_neg (hne _ (Or.inr rfl)),
      if_neg (hne _ (Or.inl rfl))]
    exact finite_congr s hfraction (by omega) _ _
  · obtain rfl : e = -1074 := h.full.resolve_left hfull
    have hfraction : (BitVec.ofNat 52 m).toNat = m := by
      rw [BitVec.toNat_ofNat]
      omega
    have hne : BitVec.ofNat 52 m ≠ 0#52 := by
      intro h0
      have hpos := h.pos
      rw [h0] at hfraction
      norm_num at hfraction
      omega
    rw [pack_of_not_full h.pos s (by omega), unpack_eq, if_neg (by decide), if_pos rfl, dif_neg hne]
    exact finite_congr s hfraction rfl _ _

theorem unpack_pack_of_eq (h : Canonical m e) (hmax : e ≤ 971) {s : Sign} {f : UnpackedFloat}
    (hf : f = .finite s m e h.pos) : (Float.Model.pack f).unpack = .finite s m e h.pos := by
  rw [hf, unpack_pack h hmax]

/-- What a bit pattern stands for. -/
inductive Unpacks (s : Sign) (biased : BitVec 11) (fraction : BitVec 52) : UnpackedFloat → Prop
  | infinity (hbiased : biased = -1#11) (hfraction : fraction = 0#52) :
      Unpacks s biased fraction (.infinity s)
  | notANumber (hbiased : biased = -1#11) (hfraction : fraction ≠ 0#52) :
      Unpacks s biased fraction .notANumber
  | zero (hbiased : biased = 0#11) (hfraction : fraction = 0#52) :
      Unpacks s biased fraction (.zero s)
  | small (hbiased : biased = 0#11) (hpos : 0 < fraction.toNat) :
      Unpacks s biased fraction (.finite s fraction.toNat (-1074) hpos)
  | full (hzero : biased ≠ 0#11) (htop : biased ≠ -1#11) (hpos : 0 < 2 ^ 52 + fraction.toNat) :
      Unpacks s biased fraction (.finite s (2 ^ 52 + fraction.toNat) (biased.toNat - 1075) hpos)

theorem unpacks (s : Sign) (biased : BitVec 11) (fraction : BitVec 52) :
    Unpacks s biased fraction
      (UnpackedFloat.unpack Format.binary64 (packComponents Format.binary64 s biased fraction)) := by
  rw [unpack_eq]
  refine iteInduction (motive := Unpacks s biased fraction) (fun htop => ?_) fun htop => ?_
  · exact iteInduction (Unpacks.infinity htop) (Unpacks.notANumber htop)
  · refine iteInduction (motive := Unpacks s biased fraction) (fun hzero => ?_) fun hzero => ?_
    · rw [apply_dite (Unpacks s biased fraction), dite_prop_iff_and]
      exact ⟨Unpacks.zero hzero, fun _ => .small hzero _⟩
    · exact .full hzero htop _

/-- Each double has a sign, an exponent and a fraction. -/
theorem exists_unpacks (x : Float.Model) : ∃ (s : Sign) (biased : BitVec 11) (fraction : BitVec 52),
    x.toBits.toBitVec = packComponents Format.binary64 s biased fraction ∧
      Unpacks s biased fraction x.unpack := by
  have hparts := packComponents_unpack x.toBits.toBitVec
  refine ⟨_, _, _, hparts.symm, ?_⟩
  have hx := unpacks (Sign.ofBitVec (@unpackSign Format.binary64 x.toBits.toBitVec))
    (@unpackExponent Format.binary64 x.toBits.toBitVec)
    (@unpackMantissa Format.binary64 x.toBits.toBitVec)
  rwa [hparts] at hx

theorem toNat_le_of_ne_neg_one {biased : BitVec 11} (h : biased ≠ -1#11) : biased.toNat ≤ 2046 := by
  have hlt := biased.isLt
  by_contra hgt
  refine h (BitVec.eq_of_toNat_eq ?_)
  norm_num
  omega

theorem canonical_of_unpack {x : Float.Model} {s : Sign} {hm : 0 < m}
    (h : x.unpack = .finite s m e hm) : Canonical m e ∧ e ≤ 971 := by
  obtain ⟨_, biased, fraction, _, hx⟩ := exists_unpacks x
  have hlt : fraction.toNat < 2 ^ 52 := fraction.isLt
  rw [h] at hx
  cases hx with
  | small _ hpos => exact ⟨⟨hpos, by omega, by omega, Or.inr rfl⟩, by omega⟩
  | full hzero htop hpos =>
    have hle := toNat_le_of_ne_neg_one htop
    have hpos : 0 < biased.toNat := toNat_pos_of_ne_zero hzero
    exact ⟨⟨by omega, by omega, by omega, Or.inl (by omega)⟩, by omega⟩

/-- A double is nothing but what it stands for. -/
theorem pack_unpack (x : Float.Model) : Float.Model.pack x.unpack = x := by
  suffices h : UnpackedFloat.pack Format.binary64 x.unpack = x.toBits.toBitVec by
    rw [Float.Model.pack]
    congr
  obtain ⟨s, biased, fraction, hbits, hx⟩ := exists_unpacks x
  have hvalid := x.valid
  rw [hbits] at hvalid ⊢
  generalize x.unpack = f at hx
  cases hx with
  | infinity hbiased hfraction => rw [hbiased, hfraction]; rfl
  | notANumber hbiased hfraction =>
    refine (hvalid.eq_packedNaN ?_ ?_).symm
    · rw [unpackExponent_packComponents, hbiased]
    · rwa [unpackMantissa_packComponents]
  | zero hbiased hfraction => rw [hbiased, hfraction]; rfl
  | small hbiased hpos =>
    have hlt : fraction.toNat < 2 ^ 52 := fraction.isLt
    rw [pack_of_not_full hpos s hlt, hbiased, BitVec.ofNat_toNat, BitVec.setWidth_eq]
  | full hzero htop hpos =>
    have hlt : fraction.toNat < 2 ^ 52 := fraction.isLt
    have hle := toNat_le_of_ne_neg_one htop
    rw [pack_of_full hpos s (by omega) (by omega) (by omega)]
    congr
    · rw [show ((biased.toNat : Int) - 1075 + 1075).toNat = biased.toNat by omega,
        BitVec.ofNat_toNat, BitVec.setWidth_eq]
    · apply BitVec.eq_of_toNat_eq
      rw [BitVec.toNat_ofNat]
      omega

/-- Neither below zero, nor a zero of negative sign, nor what is no number. -/
def Nonnegative : UnpackedFloat → Prop
  | .infinity s | .zero s | .finite s _ _ _ => s = .positive
  | .notANumber => False

theorem nonnegative_roundWithAccuracy (m : Nat) (e : Int) (accuracy : Accuracy) :
    Nonnegative (roundWithAccuracy Format.binary64 .positive m e accuracy) := by
  rw [roundWithAccuracy]
  dsimp only
  rw [apply_dite Nonnegative, dite_prop_iff_and]
  exact ⟨fun _ => rfl, fun _ => rfl⟩

theorem Nonnegative.unpack_pack {f : UnpackedFloat} (h : Nonnegative f) :
    Nonnegative (Float.Model.pack f).unpack := by
  have hpacked : ∃ (biased : BitVec 11) (fraction : BitVec 52),
      UnpackedFloat.pack Format.binary64 f = packComponents Format.binary64 .positive biased fraction ∧
        (biased = -1#11 → fraction = 0#52) := by
    cases f with
    | infinity s | zero s =>
      obtain rfl := h
      exact ⟨_, _, rfl, fun _ => rfl⟩
    | notANumber => exact h.elim
    | finite s m e hm =>
      obtain rfl := h
      rw [pack_finite]
      split
      next => exact ⟨_, _, rfl, fun _ => rfl⟩
      next hfits =>
        split
        next =>
          refine ⟨_, _, rfl, fun htop => ?_⟩
          have hfits : ¬ 2 ^ 11 ≤ _ + 1 := hfits
          have htop : _ % 2 ^ 11 = 2047 := congrArg BitVec.toNat htop
          omega
        next => exact ⟨_, _, rfl, by rintro ⟨⟩⟩
  obtain ⟨biased, fraction, hbits, hfraction⟩ := hpacked
  have hunpacks := unpacks .positive biased fraction
  rw [← hbits] at hunpacks
  change Nonnegative (UnpackedFloat.unpack Format.binary64 (UnpackedFloat.pack Format.binary64 f))
  generalize UnpackedFloat.unpack Format.binary64 (UnpackedFloat.pack Format.binary64 f) = g
    at hunpacks
  cases hunpacks with
  | notANumber hbiased hne => exact absurd (hfraction hbiased) hne
  | _ => rfl

end Recalc.Binary64

namespace Recalc.Number

open Float.Model Float.Model.UnpackedFloat Binary64

variable {x y : Float} {m : Nat} {e : Int} {s : Sign}

theorem eq_of_unpack (h : x.toModel.unpack = y.toModel.unpack) : x = y := by
  have hmodel : x.toModel = y.toModel := by rw [← pack_unpack x.toModel, h, pack_unpack]
  cases x
  cases y
  exact congrArg Float.ofModel hmodel

theorem binary_eq {biased : BitVec 11} {fraction : BitVec 52}
    (hbits : x.toModel.toBits.toBitVec = packComponents Format.binary64 s biased fraction) :
    binary x = if biased.toNat = 0 then (fraction.toNat, -1074)
      else (fraction.toNat + 2 ^ 52, (biased.toNat : Int) - 1075) := by
  have hlt : fraction.toNat < 2 ^ 52 := fraction.isLt
  have hlt' : biased.toNat < 2 ^ 11 := biased.isLt
  have hlt'' : s.toBitVec.toNat < 2 := s.toBitVec.isLt
  have hnat : x.toBits.toNat =
      2 ^ 63 * s.toBitVec.toNat + 2 ^ 52 * biased.toNat + fraction.toNat := by
    rw [← toNat_packComponents, ← hbits]
    rfl
  have hbiased : x.toBits.toNat / hiddenBit % 2048 = biased.toNat := by
    rw [hnat, hiddenBit]
    omega
  have hfraction : x.toBits.toNat % hiddenBit = fraction.toNat := by
    rw [hnat, hiddenBit]
    omega
  simp only [binary, hbiased, hfraction]
  rfl

theorem binary_of_unpack {hm : 0 < m} (h : x.toModel.unpack = .finite s m e hm) :
    binary x = (m, e) := by
  obtain ⟨_, biased, fraction, hbits, hx⟩ := exists_unpacks x.toModel
  rw [binary_eq hbits]
  rw [h] at hx
  cases hx with
  | small hzero _ => rw [hzero, BitVec.toNat_zero, if_pos rfl]
  | full hzero _ _ =>
    have hpos : 0 < biased.toNat := toNat_pos_of_ne_zero hzero
    rw [if_neg (by omega), Nat.add_comm]

theorem binary_of_unpack_zero (h : x.toModel.unpack = .zero s) : binary x = (0, -1074) := by
  obtain ⟨_, biased, fraction, hbits, hx⟩ := exists_unpacks x.toModel
  rw [binary_eq hbits]
  rw [h] at hx
  cases hx with
  | zero hbiased hfraction =>
    rw [hbiased, hfraction]
    rfl

theorem unpack_neg_of_finite {hm : 0 < m} (h : x.toModel.unpack = .finite s m e hm) :
    (-x).toModel.unpack = .finite (-s) m e hm := by
  obtain ⟨hcanonical, hmax⟩ := canonical_of_unpack h
  have hneg : x.toModel.unpack.neg = .finite (-s) m e hm := by
    rw [h]
    rfl
  exact unpack_pack_of_eq hcanonical hmax hneg

theorem unpack_neg_of_zero (h : x.toModel.unpack = .zero s) :
    (-x).toModel.unpack = .zero (-s) := by
  have hneg : x.toModel.unpack.neg = .zero (-s) := by
    rw [h]
    rfl
  refine (congrArg (fun f => (Float.Model.pack f).unpack) hneg).trans ?_
  cases s <;> rfl

/-- The sign of what a double stands for, positive if it is no number. -/
def signOf : UnpackedFloat → Sign
  | .infinity s | .zero s | .finite s _ _ _ => s
  | .notANumber => .positive

theorem isNegative_iff (h : x.toModel.unpack ≠ .notANumber) :
    isNegative x = true ↔ signOf x.toModel.unpack = .negative := by
  obtain ⟨s, biased, fraction, hbits, hx⟩ := exists_unpacks x.toModel
  have hlt : fraction.toNat < 2 ^ 52 := fraction.isLt
  have hlt' : biased.toNat < 2 ^ 11 := biased.isLt
  have hnat : x.toBits.toNat =
      2 ^ 63 * s.toBitVec.toNat + 2 ^ 52 * biased.toNat + fraction.toNat := by
    rw [← toNat_packComponents, ← hbits]
    rfl
  have hbool : isNegative x = true ↔ s.toBitVec.toNat = 1 := by
    have hsign : s.toBitVec.toNat < 2 := s.toBitVec.isLt
    have htop : x.toBits.toNat / 2 ^ 63 = s.toBitVec.toNat := by omega
    rw [isNegative, beq_iff_eq, ← UInt64.toNat_inj, UInt64.toNat_shiftRight,
      Nat.shiftRight_eq_div_pow]
    exact Eq.congr_left htop
  rw [hbool]
  generalize x.toModel.unpack = f at h hx
  have hsign : signOf f = s := by
    cases hx with
    | notANumber => exact absurd rfl h
    | _ => rfl
  rw [hsign]
  cases s with
  | negative => exact iff_of_true rfl rfl
  | positive => exact iff_of_false (by decide) (by rintro ⟨⟩)

theorem unpack_infinity : (1 / 0 : Float).toModel.unpack = .infinity .positive := by
  rfl

theorem unpack_neg_infinity : (-1 / 0 : Float).toModel.unpack = .infinity .negative := by
  rfl

theorem unpack_zero : (0 : Float).toModel.unpack = .zero .positive := by
  rfl

theorem beq_eq (x y : Float) :
    (x == y) = (x.toModel.unpack.compare y.toModel.unpack == some .eq) := rfl

theorem beq_zero_iff : (x == 0) = true ↔ ∃ s, x.toModel.unpack = .zero s := by
  rw [beq_eq, unpack_zero]
  cases x.toModel.unpack with
  | zero s => exact iff_of_true rfl ⟨s, rfl⟩
  | notANumber => exact iff_of_false (by rintro ⟨⟩) (by rintro ⟨s, ⟨⟩⟩)
  | infinity s => cases s <;> exact iff_of_false (by rintro ⟨⟩) (by rintro ⟨s, ⟨⟩⟩)
  | finite s => cases s <;> exact iff_of_false (by rintro ⟨⟩) (by rintro ⟨s, ⟨⟩⟩)

/-- The sign of zero does not count. -/
theorem unsigned_beq (hfinite : isFinite x = true) :
    ((if x == 0 then 0 else x) == x) = true := by
  split
  next hzero =>
    obtain ⟨s, hs⟩ := beq_zero_iff.mp hzero
    rw [beq_eq, unpack_zero, hs]
    rfl
  next =>
    have hnumber : isNaN x = false ∧ isInfinite x = false := by simpa [isFinite] using hfinite
    simpa [isNaN, bne] using hnumber.1

theorem isFinite_eq (x : Float) : isFinite x = x.toModel.unpack.isFinite := by
  simp only [isFinite, isNaN, isInfinite, bne, beq_eq, unpack_infinity, unpack_neg_infinity]
  cases x.toModel.unpack with
  | zero s => rfl
  | notANumber => rfl
  | infinity s => cases s <;> rfl
  | finite s m e =>
    have hsame : (compare e e).then (compare m m) = .eq := by simp [Std.ReflCmp.compare_self]
    have hself : (UnpackedFloat.finite s m e ‹_›).compare (.finite s m e ‹_›) = some .eq := by
      cases s with
      | positive => exact congrArg some hsame
      | negative => exact congrArg (fun order => some order.swap) hsame
    rw [hself]
    cases s <;> rfl

end Recalc.Number
