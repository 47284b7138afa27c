import Recalc.Proofs.Number.Packing

namespace Recalc

namespace Binary64

open Float.Model Float.Model.UnpackedFloat

variable {f g : UnpackedFloat}

/-- Where a double stands among all doubles: the lesser it is, the lesser is the list. Both zeros
stand in one place. -/
def rank : UnpackedFloat → List Int
  | .infinity .negative => [-2]
  | .finite .negative m e _ => [-1, -e, -m]
  | .zero _ | .notANumber => [0]
  | .finite .positive m e _ => [1, e, m]
  | .infinity .positive => [2]

theorem compare_natCast (m n : Nat) : compare (m : Int) n = compare m n := by
  simp only [compare, compareOfLessAndEq, Nat.cast_lt, Nat.cast_inj]

theorem compare_neg (a b : Int) : compare (-a) (-b) = compare b a := by
  simp only [compare, compareOfLessAndEq, neg_lt_neg_iff, neg_inj, eq_comm]

theorem compare_rank_positive (m n : Nat) (e e' : Int) :
    compare ([1, e, m] : List Int) [1, e', n] = (compare e e').then (compare m n) := by
  simp [compare_natCast]

theorem compare_rank_negative (m n : Nat) (e e' : Int) :
    compare ([-1, -e, -m] : List Int) [-1, -e', -n] = ((compare e e').then (compare m n)).swap := by
  rw [Ordering.swap_then, ← Std.OrientedCmp.eq_swap, ← Std.OrientedCmp.eq_swap, ← compare_natCast]
  simp [compare_neg]

/-- Doubles compare as their places do. -/
theorem compare_eq (hf : f ≠ .notANumber) (hg : g ≠ .notANumber) :
    f.compare g = some (compare (rank f) (rank g)) := by
  cases f with
  | notANumber => exact absurd rfl hf
  | infinity s =>
    cases g with
    | notANumber => exact absurd rfl hg
    | infinity t => cases s <;> cases t <;> rfl
    | zero t => cases s <;> rfl
    | finite t => cases s <;> cases t <;> rfl
  | zero s =>
    cases g with
    | notANumber => exact absurd rfl hg
    | zero t => rfl
    | infinity t | finite t => cases t <;> rfl
  | finite s m e =>
    cases g with
    | notANumber => exact absurd rfl hg
    | infinity t => cases s <;> cases t <;> rfl
    | zero t => cases s <;> rfl
    | finite t n e' =>
      cases s <;> cases t
      case negative.negative => exact congrArg some (compare_rank_negative m n e e').symm
      case positive.positive => exact congrArg some (compare_rank_positive m n e e').symm
      all_goals rfl

/-- No two doubles stand in one place, the zeros apart. -/
theorem eq_or_zero_of_rank_eq (hf : f ≠ .notANumber) (hg : g ≠ .notANumber)
    (h : rank f = rank g) : f = g ∨ ∃ s t, f = .zero s ∧ g = .zero t := by
  cases f with
  | notANumber => exact absurd rfl hf
  | infinity s =>
    cases g with
    | notANumber => exact absurd rfl hg
    | infinity t =>
      cases s <;> cases t
      case negative.negative | positive.positive => exact Or.inl rfl
      all_goals cases h
    | zero t => cases s <;> cases h
    | finite t => cases s <;> cases t <;> cases h
  | zero s =>
    cases g with
    | notANumber => exact absurd rfl hg
    | zero t => exact Or.inr ⟨s, t, rfl, rfl⟩
    | infinity t | finite t => cases t <;> cases h
  | finite s m e =>
    cases g with
    | notANumber => exact absurd rfl hg
    | infinity t => cases s <;> cases t <;> cases h
    | zero t => cases s <;> cases h
    | finite t n e' =>
      refine Or.inl ?_
      cases s <;> cases t
      case negative.negative =>
        have hlist : ([-1, -e, -m] : List Int) = [-1, -e', -n] := h
        obtain ⟨he, hm⟩ : e = e' ∧ m = n := by simpa using hlist
        exact finite_congr _ hm he _ _
      case positive.positive =>
        have hlist : ([1, e, m] : List Int) = [1, e', n] := h
        obtain ⟨he, hm⟩ : e = e' ∧ m = n := by simpa using hlist
        exact finite_congr _ hm he _ _
      all_goals cases h

end Binary64

namespace Number

open Float.Model Binary64

variable {x y : Float}

theorem lt_iff : x < y ↔ x.toModel.unpack.compare y.toModel.unpack = some .lt := by
  change Float.lt x y = true ↔ _
  rw [Float.lt, decide_eq_true_iff]
  exact beq_iff_eq

theorem isNaN_iff : isNaN x = true ↔ x.toModel.unpack = .notANumber := by
  rw [isNaN, bne, Bool.not_eq_true', beq_eq]
  constructor
  · intro hne
    by_contra hnumber
    have hself := compare_eq hnumber hnumber
    rw [Std.ReflOrd.compare_self] at hself
    rw [hself] at hne
    cases hne
  · intro h
    rw [h]
    rfl

theorem unpack_ne_of_isNaN (h : isNaN x = false) : x.toModel.unpack ≠ .notANumber := by
  rw [Ne, ← isNaN_iff, h]
  exact Bool.false_ne_true

/-- Where a number stands among all numbers. -/
def rank (x : Float) : List Int := Binary64.rank x.toModel.unpack

theorem lt_iff_rank (hx : isNaN x = false) (hy : isNaN y = false) :
    x < y ↔ compare (rank x) (rank y) = .lt := by
  rw [lt_iff, compare_eq (unpack_ne_of_isNaN hx) (unpack_ne_of_isNaN hy), Option.some.injEq]
  rfl

theorem not_lt_of_isNaN (h : isNaN x = true ∨ isNaN y = true) : ¬ x < y := by
  rw [lt_iff]
  rcases h with h | h
  · rw [isNaN_iff.mp h]
    rintro ⟨⟩
  · rw [isNaN_iff.mp h]
    cases x.toModel.unpack <;> rintro ⟨⟩

/-- Numbers of which neither is the lesser have one text. -/
theorem canonical_eq_of_rank_eq (hx : isNaN x = false) (hy : isNaN y = false)
    (h : rank x = rank y) : canonical x = canonical y := by
  rcases eq_or_zero_of_rank_eq (unpack_ne_of_isNaN hx) (unpack_ne_of_isNaN hy) h with
    heq | ⟨s, t, hs, ht⟩
  · rw [eq_of_unpack heq]
  · have hzero : ∀ {z : Float} {r}, z.toModel.unpack = .zero r → canonical z = "0" := by
      intro z r hz
      have hfinite : isFinite z = true := by rw [isFinite_eq, hz]; rfl
      have hnumber : isNaN z = false ∧ isInfinite z = false := by simpa [isFinite] using hfinite
      simp only [canonical, hnumber.1, hnumber.2, beq_zero_iff.mpr ⟨r, hz⟩, Bool.false_eq_true,
        ↓reduceIte]
    rw [hzero hs, hzero ht]

end Number

end Recalc
