import Mathlib.Data.List.TakeWhile
import Recalc.Formula.Token
import Recalc.Proofs.Address.Notation
import Recalc.Proofs.Number.Magnitude

namespace Recalc

variable {whole part rest : List Char}

namespace Scan

theorem number?_whole (hwhole : ∀ c ∈ whole, c.isDigit = true)
    (hrest : ∀ c ∈ rest.head?, c.isDigit = false ∧ c ≠ '.') :
    number? (whole ++ rest) =
      some (.number (Decimal.mk false (Decimal.ofDigits whole) 0).toFloat, whole.length) := by
  obtain ⟨htake, hdrop⟩ := span_append hwhole fun c hc => (hrest c hc).1
  rw [number?, htake, hdrop]
  split
  next => exact absurd rfl (hrest '.' rfl).2
  next => rfl

theorem number?_pointed (hne : (whole.isEmpty && part.isEmpty) = false)
    (hwhole : ∀ c ∈ whole, c.isDigit = true) (hpart : ∀ c ∈ part, c.isDigit = true)
    (hrest : ∀ c ∈ rest.head?, c.isDigit = false) :
    number? (whole ++ '.' :: part ++ rest) =
      some (.number (Decimal.mk false (Decimal.ofDigits (whole ++ part)) (-part.length)).toFloat,
        (whole ++ '.' :: part).length) := by
  have hpoint : ∀ c ∈ ('.' :: (part ++ rest)).head?, c.isDigit = false := by
    rintro c ⟨⟩
    rfl
  obtain ⟨htake, hdrop⟩ := span_append hwhole hpoint
  obtain ⟨htake', _⟩ := span_append hpart hrest
  rw [List.append_assoc, List.cons_append]
  simp only [number?, htake, hdrop, htake', hne, Bool.false_eq_true, ↓reduceIte,
    List.length_append, List.length_cons]
  rw [Nat.add_right_comm, Nat.add_assoc]

end Scan

namespace Decimal

open Binary64

theorem ofDigits_replicate_append (k : Nat) (cs : List Char) :
    ofDigits (List.replicate k '0' ++ cs) = ofDigits cs := by
  rw [ofDigits_eq, ofDigits_eq, Nat.ofDigitChars_append, Nat.ofDigitChars_replicate_zero,
    Nat.mul_zero]

theorem ofDigits_append_replicate (cs : List Char) (k : Nat) :
    ofDigits (cs ++ List.replicate k '0') = ofDigits cs * 10 ^ k := by
  rw [ofDigits_eq, ofDigits_eq, Nat.ofDigitChars_append, Nat.ofDigitChars_replicate_zero,
    Nat.mul_comm]

theorem dropTrailingZeros_append (cs : List Char) :
    ∃ k, dropTrailingZeros cs ++ List.replicate k '0' = cs := by
  have hzeros : ∀ c ∈ cs.reverse.takeWhile (· == '0'), c = '0' := by
    intro c hc
    simpa using List.mem_takeWhile_imp hc
  refine ⟨(cs.reverse.takeWhile (· == '0')).length, ?_⟩
  have hparts := congrArg List.reverse
    (List.takeWhile_append_dropWhile (p := (· == '0')) (l := cs.reverse))
  rwa [List.reverse_append, List.reverse_reverse, List.eq_replicate_of_mem hzeros,
    List.reverse_replicate] at hparts

theorem head?_spell {n : Nat} (h : n ≠ 0) : (spell n).head? ≠ some '0' := by
  induction n using Nat.strongRecOn with
  | ind n ih =>
    rw [spell, Nat.toDigits_eq_if (by decide)]
    split
    next hlt =>
      intro hhead
      have hdigit : n.digitChar = '0' := Option.some.inj hhead
      have hcode := Nat.toNat_digitChar_of_lt_ten hlt
      rw [hdigit] at hcode
      have hzero : '0'.toNat = 48 := rfl
      omega
    next hge =>
      rw [List.head?_append_of_ne_nil _ Nat.toDigits_ne_nil]
      exact ih (n / 10) (Nat.div_lt_self (Nat.pos_of_ne_zero h) (by decide)) (by omega)

/-- No zero stands in front of other digits. -/
def Unpadded (cs : List Char) : Prop := cs = ['0'] ∨ cs.head? ≠ some '0'

theorem unpadded_spell (n : Nat) : Unpadded (spell n) := by
  by_cases hn : n = 0
  · subst hn
    exact Or.inl rfl
  · exact Or.inr (head?_spell hn)

/-- Digits, and behind a point more of them if there are any. -/
def pointed (whole part : List Char) : List Char :=
  whole ++ if part.isEmpty then [] else '.' :: part

/-- The digits on both sides of a point, which stand there only if they have to. -/
structure Pointed (whole part : List Char) : Prop where
  whole_ne_nil : whole ≠ []
  isDigit_whole : ∀ c ∈ whole, c.isDigit = true
  isDigit_part : ∀ c ∈ part, c.isDigit = true
  unpadded : Unpadded whole

/-- The number that they spell. -/
def pointedValue (whole part : List Char) : ℚ :=
  ofDigits (whole ++ part) * 10 ^ (-part.length : Int)

theorem pointed_zero : Pointed ['0'] [] :=
  ⟨by simp, by simp, by simp, Or.inl rfl⟩

theorem Pointed.readUnsigned_eq (h : Pointed whole part) (negative : Bool) :
    readUnsigned negative (pointed whole part) =
      some ⟨negative, ofDigits (whole ++ part), -part.length⟩ := by
  have hwhole : whole.isEmpty = false := by simpa using h.whole_ne_nil
  have hend : ∀ c ∈ ([] : List Char).head?, c.isDigit = false := by simp
  by_cases hpart : part = []
  · subst hpart
    obtain ⟨htake, hdrop⟩ := span_append h.isDigit_whole hend
    simp only [readUnsigned, pointed, List.isEmpty_nil, ↓reduceIte, htake, hdrop, hwhole]
    simp [readScale]
  · have hpoint : ∀ c ∈ ('.' :: part).head?, c.isDigit = false := by
      rintro c ⟨⟩
      rfl
    obtain ⟨htake, hdrop⟩ := span_append h.isDigit_whole hpoint
    obtain ⟨htake', hdrop'⟩ := span_append h.isDigit_part hend
    rw [List.append_nil] at htake' hdrop'
    simp only [readUnsigned, pointed, List.isEmpty_iff, hpart, ↓reduceIte, htake, hdrop, hwhole,
      htake', hdrop']
    simp [readScale]

theorem Pointed.splitSign_eq (h : Pointed whole part) (d : Decimal) :
    splitSign (d.signChars ++ pointed whole part) = (d.negative, pointed whole part) := by
  cases hsign : d.negative with
  | true => simp [signChars, hsign, splitSign]
  | false =>
    obtain ⟨c, cs, rfl⟩ := List.exists_cons_of_ne_nil h.whole_ne_nil
    have hdigit : c.isDigit = true := h.isDigit_whole c List.mem_cons_self
    have hhead : splitSign (c :: (cs ++ if part.isEmpty then [] else '.' :: part)) =
        (false, c :: (cs ++ if part.isEmpty then [] else '.' :: part)) := by
      unfold splitSign
      split
      next heq =>
        cases heq
        cases hdigit
      next heq =>
        cases heq
        cases hdigit
      next => rfl
    rw [signChars, hsign]
    exact hhead

theorem Pointed.read?_eq (h : Pointed whole part) (d : Decimal) :
    read? (d.signChars ++ pointed whole part) =
      some ⟨d.negative, ofDigits (whole ++ part), -part.length⟩ := by
  simp only [read?, h.splitSign_eq d, h.readUnsigned_eq]

/-- A formula reads digits and a point as any other text does, if nothing follows that extends
them. -/
theorem Pointed.number?_eq (h : Pointed whole part)
    (hrest : ∀ c ∈ rest.head?, c.isDigit = false ∧ c ≠ '.') :
    Scan.number? (pointed whole part ++ rest) =
      some (.number (magnitude (ofDigits (whole ++ part)) (-part.length)),
        (pointed whole part).length) := by
  by_cases hpart : part = []
  · subst hpart
    have hpointed : pointed whole [] = whole := List.append_nil whole
    rw [hpointed, List.append_nil]
    exact Scan.number?_whole h.isDigit_whole hrest
  · have hwhole : whole.isEmpty = false := by simpa using h.whole_ne_nil
    have hpointed : pointed whole part = whole ++ '.' :: part := by simp [pointed, hpart]
    rw [hpointed]
    exact Scan.number?_pointed (by rw [hwhole, Bool.false_and]) h.isDigit_whole h.isDigit_part
      fun c hc => (hrest c hc).1

theorem unpadded_withPoint (digits places : Nat) : Unpadded (withPoint digits places).1 := by
  by_cases hfew : (spell digits).length ≤ places
  · -- One of the zeros that fill up stands before the point.
    obtain ⟨k, hk⟩ : ∃ k, places + 1 - (spell digits).length = k + 1 :=
      ⟨places - (spell digits).length, by omega⟩
    have hlength : (List.replicate (k + 1) '0' ++ spell digits).length - places = 1 := by
      rw [List.length_append, List.length_replicate]
      omega
    refine Or.inl ?_
    rw [withPoint, hk, hlength]
    rfl
  · have hnone : places + 1 - (spell digits).length = 0 := by omega
    rw [withPoint, hnone]
    show Unpadded ((spell digits).take ((spell digits).length - places))
    rcases unpadded_spell digits with hzero | hhead
    · rw [hzero, List.length_singleton] at hfew ⊢
      obtain rfl : places = 0 := by omega
      exact Or.inl rfl
    · refine Or.inr ?_
      rwa [List.head?_take, if_neg (by omega)]

theorem withPoint_eq (digits places : Nat) : ∃ whole part, withPoint digits places = (whole, part) ∧
    Pointed whole part ∧ ofDigits (whole ++ part) = digits ∧ part.length = places := by
  obtain ⟨padded, hpadded⟩ : ∃ padded, padded =
    List.replicate (places + 1 - (spell digits).length) '0' ++ spell digits := ⟨_, rfl⟩
  have hlength : places + 1 ≤ padded.length := by
    rw [hpadded, List.length_append, List.length_replicate]
    omega
  have hdigit : ∀ c ∈ padded, c.isDigit = true := by
    intro c hc
    rw [hpadded] at hc
    rcases List.mem_append.mp hc with hc | hc
    · rw [List.eq_of_mem_replicate hc]
      rfl
    · exact isDigit_of_mem_spell hc
  refine ⟨padded.take (padded.length - places), padded.drop (padded.length - places), ?_, ?_, ?_, ?_⟩
  · rw [hpadded, withPoint]
  · refine ⟨?_, fun c hc => hdigit c (List.mem_of_mem_take hc),
      fun c hc => hdigit c (List.mem_of_mem_drop hc), ?_⟩
    · refine List.ne_nil_of_length_pos ?_
      rw [List.length_take]
      omega
    · rw [hpadded]
      exact unpadded_withPoint digits places
  · rw [List.take_append_drop, hpadded, ofDigits_replicate_append, ofDigits_spell]
  · rw [List.length_drop]
    omega

/-- Positional notation is pointed, and nothing of the decimal is lost in it. -/
theorem positional_eq (d : Decimal) : ∃ whole part, Pointed whole part ∧
    d.positional = d.signChars ++ pointed whole part ∧
      pointedValue whole part = d.digits * 10 ^ d.exponent := by
  unfold positional
  split
  next hexponent =>
    refine ⟨spell (d.digits * Nat.pow 10 d.exponent.toNat), [], ?_, ?_, ?_⟩
    · exact ⟨spell_ne_nil _, fun c hc => isDigit_of_mem_spell hc, by simp, unpadded_spell _⟩
    · simp [pointed]
    · obtain ⟨k, hk⟩ := Int.eq_ofNat_of_zero_le hexponent
      rw [pointedValue, List.append_nil, ofDigits_spell, hk, Int.toNat_natCast, zpow_natCast]
      simp
  next hexponent =>
    obtain ⟨whole, part, hpoint, hdigits, hvalue, hlength⟩ := withPoint_eq d.digits d.exponent.natAbs
    obtain ⟨k, hzeros⟩ := dropTrailingZeros_append part
    simp only [hpoint]
    refine ⟨whole, dropTrailingZeros part, ?_, ?_, ?_⟩
    · refine ⟨hdigits.whole_ne_nil, hdigits.isDigit_whole, fun c hc => hdigits.isDigit_part c ?_,
        hdigits.unpadded⟩
      rw [← hzeros]
      exact List.mem_append_left _ hc
    · rw [pointed, List.append_assoc]
    · have hlength' := congrArg List.length hzeros
      rw [List.length_append, List.length_replicate] at hlength'
      rw [← hzeros, ← List.append_assoc, ofDigits_append_replicate] at hvalue
      have hexponent : d.exponent = -((dropTrailingZeros part).length : Int) - k := by omega
      rw [pointedValue, ← hvalue, hexponent, zpow_sub₀ (by norm_num), zpow_natCast]
      push_cast
      field_simp

end Decimal
namespace Number

open Float.Model Float.Model.UnpackedFloat Binary64 Decimal

variable {x : Float}

/-- A decimal of the sign and the size of a finite double is read as that double. -/
theorem toFloat_eq {d : Decimal} (hfinite : isFinite x = true) (hsign : d.negative = isNegative x)
    (hvalue : (d.digits : ℚ) * 10 ^ d.exponent = size (binary x).1 (binary x).2) :
    d.toFloat = x := by
  apply eq_of_unpack
  rw [isFinite_eq] at hfinite
  have hnegative : d.negative = true ↔ signOf x.toModel.unpack = .negative := by
    rw [hsign]
    refine isNegative_iff fun hnan => ?_
    rw [hnan] at hfinite
    cases hfinite
  cases hx : x.toModel.unpack with
  | notANumber | infinity s =>
    rw [hx] at hfinite
    cases hfinite
  | zero s =>
    rw [binary_of_unpack_zero hx, size, Nat.cast_zero, zero_mul] at hvalue
    have hpow : (10 : ℚ) ^ d.exponent ≠ 0 := by positivity
    have hdigits : d.digits = 0 := Nat.cast_eq_zero.mp ((mul_eq_zero_iff_right hpow).mp hvalue)
    rw [hx] at hnegative
    rw [Decimal.toFloat, magnitude, if_pos hdigits]
    cases s with
    | negative => rw [if_pos (hnegative.mpr rfl), unpack_neg_of_zero unpack_zero]; rfl
    | positive => rw [if_neg (fun h => by cases hnegative.mp h), unpack_zero]
  | finite s m e hm =>
    obtain ⟨h, hmax⟩ := canonical_of_unpack hx
    rw [binary_of_unpack hx] at hvalue
    have hmagnitude := unpack_magnitude h hmax hvalue
    rw [hx] at hnegative
    rw [Decimal.toFloat]
    cases s with
    | negative => rw [if_pos (hnegative.mpr rfl), unpack_neg_of_finite hmagnitude]; rfl
    | positive => rw [if_neg (fun h => by cases hnegative.mp h), hmagnitude]

theorem exact_value (x : Float) :
    ((exact x).digits : ℚ) * 10 ^ (exact x).exponent = size (binary x).1 (binary x).2 := by
  simp only [exact]
  split
  next hexponent =>
    obtain ⟨k, hk⟩ := Int.eq_ofNat_of_zero_le hexponent
    rw [size, hk, Int.toNat_natCast, zpow_natCast]
    simp
  next hexponent =>
    obtain ⟨k, hk⟩ : ∃ k : Nat, (binary x).2 = -k := ⟨(binary x).2.natAbs, by omega⟩
    have hten : (10 : ℚ) ^ k = 5 ^ k * 2 ^ k := by rw [← mul_pow]; norm_num
    rw [size, hk, Int.natAbs_neg, Int.natAbs_natCast, zpow_neg, zpow_neg, zpow_natCast, zpow_natCast,
      hten]
    rw [Nat.cast_mul, Nat.pow_eq, Nat.cast_pow]
    push_cast
    field_simp

theorem exact_negative (x : Float) : (exact x).negative = isNegative x := by
  simp only [exact]
  split <;> rfl

/-- A finite double is read back from all of its digits. -/
theorem readsBack_exact (hfinite : isFinite x = true) : readsBack x (exact x) = true := by
  obtain ⟨whole, part, hpointed, htext, hvalue⟩ := positional_eq (exact x)
  rw [exact_value] at hvalue
  rw [readsBack, htext, hpointed.read?_eq, Option.any_some, beq_iff_eq]
  exact congrArg Float.toBits (toFloat_eq (d := ⟨_, _, _⟩) hfinite (exact_negative x) hvalue)

theorem withDigits?_readsBack {n : Nat} {d : Decimal} (h : withDigits? x n = some d) :
    readsBack x d = true ∧ d.negative = (exact x).negative := by
  unfold withDigits? at h
  split at h
  next => cases h
  next below above belowNearer hneighbours =>
    have hsign : below.negative = (exact x).negative ∧ above.negative = (exact x).negative := by
      simp only [neighbours] at hneighbours
      split at hneighbours
      next => cases hneighbours
      next =>
        cases hneighbours
        exact ⟨rfl, rfl⟩
    refine ⟨List.find?_some h, ?_⟩
    have hmem := List.mem_of_find?_eq_some h
    split at hmem
    · rcases List.mem_pair.mp hmem with rfl | rfl
      · exact hsign.1
      · exact hsign.2
    · rcases List.mem_pair.mp hmem with rfl | rfl
      · exact hsign.2
      · exact hsign.1

/-- A finite double is read back from its shortest notation, which has its sign. -/
theorem readsBack_shortest (hfinite : isFinite x = true) :
    readsBack x (shortest x) = true ∧ (shortest x).negative = isNegative x := by
  rw [shortest]
  cases hfound : (List.range' 1 17).findSome? (withDigits? x) with
  -- Whether few digits suffice does not matter here, since all of them do.
  | none => exact ⟨readsBack_exact hfinite, exact_negative x⟩
  | some d =>
    obtain ⟨n, _, hd⟩ := List.exists_of_findSome?_eq_some hfound
    obtain ⟨hreads, hsign⟩ := withDigits?_readsBack hd
    exact ⟨hreads, hsign.trans (exact_negative x)⟩

theorem eq_of_toBits {y : Float} (h : x.toBits = y.toBits) : x = y := by
  obtain ⟨⟨bits, hvalid⟩⟩ := x
  obtain ⟨⟨bits', hvalid'⟩⟩ := y
  obtain rfl : bits = bits' := h
  rfl

theorem toList_canonical (hfinite : isFinite x = true) :
    (canonical x).toList = if x == 0 then ['0'] else (shortest x).positional := by
  have hnumber : isNaN x = false ∧ isInfinite x = false := by
    simpa [isFinite] using hfinite
  simp only [canonical, hnumber.1, hnumber.2, Bool.false_eq_true, ↓reduceIte]
  split
  next => rfl
  next => exact String.toList_ofList

theorem isFinite_of_read? {cs : List Char} (h : read? cs = some x) : isFinite x = true := by
  unfold read? at h
  split at h
  next => cases h
  next d _ =>
    split at h
    next hfinite => rwa [← Option.some.inj h]
    next => cases h

/-- A finite number is read back from its text, up to the sign of zero. -/
theorem read?_canonical (hfinite : isFinite x = true) :
    read? (canonical x).toList = some (if x == 0 then 0 else x) := by
  rw [toList_canonical hfinite]
  split
  next => rfl
  next =>
    obtain ⟨hreads, _⟩ := readsBack_shortest hfinite
    obtain ⟨d, hd, hbits⟩ := (Option.any_eq_true _ _).mp hreads
    have hvalue : d.toFloat = x := eq_of_toBits (eq_of_beq hbits)
    simp only [read?, hd, hvalue, hfinite, ↓reduceIte]

theorem pointed_canonical (hfinite : isFinite x = true) : ∃ (d : Decimal) (whole part : List Char),
    Decimal.Pointed whole part ∧ (canonical x).toList = d.signChars ++ pointed whole part := by
  rw [toList_canonical hfinite]
  split
  next => exact ⟨⟨false, 0, 0⟩, ['0'], [], pointed_zero, rfl⟩
  next =>
    obtain ⟨whole, part, hpointed, htext, _⟩ := positional_eq (shortest x)
    exact ⟨shortest x, whole, part, hpointed, htext⟩

/-- What a formula writes for a finite number that is not negative are digits, with a point among
them or not, that are read as this number. -/
theorem canonical_eq (hfinite : isFinite x = true) (hsign : isNegative x = false) :
    ∃ whole part, Decimal.Pointed whole part ∧ (canonical x).toList = pointed whole part ∧
      magnitude (ofDigits (whole ++ part)) (-part.length) = x := by
  rw [toList_canonical hfinite]
  split
  next hzero =>
    refine ⟨['0'], [], pointed_zero, rfl, ?_⟩
    obtain ⟨s, hs⟩ := beq_zero_iff.mp hzero
    have hnegative := isNegative_iff (x := x) (by rw [hs]; rintro ⟨⟩)
    rw [hs, hsign] at hnegative
    refine eq_of_unpack ?_
    rw [hs]
    cases s with
    | negative => cases hnegative.mpr rfl
    | positive => rfl
  next =>
    obtain ⟨hreads, hnegative⟩ := readsBack_shortest hfinite
    obtain ⟨whole, part, hpointed, htext, _⟩ := positional_eq (shortest x)
    rw [hsign] at hnegative
    have hplain : (shortest x).signChars = [] := by rw [signChars, hnegative]; rfl
    refine ⟨whole, part, hpointed, ?_, ?_⟩
    · rw [htext, hplain, List.nil_append]
    · rw [readsBack, htext, hpointed.read?_eq, Option.any_some, beq_iff_eq, hnegative] at hreads
      exact eq_of_toBits hreads

/-- What has no sign is finite or infinite, and not below zero. -/
theorem isFinite_or_eq_infinity (h : Nonnegative x.toModel.unpack) :
    (isFinite x = true ∨ x = 1 / 0) ∧ isNegative x = false := by
  have hnumber : x.toModel.unpack ≠ .notANumber := by
    intro hnan
    rw [hnan] at h
    exact h
  have hsign : signOf x.toModel.unpack = .positive := by
    cases hx : x.toModel.unpack with
    | notANumber => exact absurd hx hnumber
    | infinity s | zero s | finite s _ _ _ =>
      rw [hx] at h
      exact h
  constructor
  · rw [isFinite_eq]
    cases hx : x.toModel.unpack with
    | notANumber => exact absurd hx hnumber
    | infinity s =>
      rw [hx] at hsign
      obtain rfl : s = .positive := hsign
      exact Or.inr (eq_of_unpack (hx.trans unpack_infinity.symm))
    | zero s => exact Or.inl rfl
    | finite s _ _ _ => exact Or.inl rfl
  · rw [Bool.eq_false_iff, Ne, isNegative_iff hnumber, hsign]
    rintro ⟨⟩

end Number

end Recalc
