import Recalc.Document.Sort
import Recalc.Proofs.Number.Comparison

namespace Recalc

/-- Among the elements that `p` allows, one that is not behind a second one is not behind a third
one either, if the second is not. -/
def TransitiveOn {α : Type} (cmp : α → α → Ordering) (p : α → Prop) : Prop :=
  ∀ a b c, p a → p b → p c → (cmp a b).isLE → (cmp b c).isLE → (cmp a c).isLE

namespace Value

variable {u v w : Value} {x y : Float} {p : Value → Prop}

def IsNumber (v : Value) : Prop := ∃ x, v = .number x

/-- The order of two values by their texts in small letters. -/
def textOrder (v w : Value) : Ordering := compare (Text.lower v.toText) (Text.lower w.toText)

theorem textOrder_swap (v w : Value) : w.textOrder v = (v.textOrder w).swap :=
  Std.OrientedOrd.eq_swap

theorem textOrder_trans (h : (u.textOrder v).isLE) (h' : (v.textOrder w).isLE) :
    (u.textOrder w).isLE := by
  unfold textOrder at h h' ⊢
  exact Std.TransCmp.isLE_trans h h'

theorem textOrder_of_not_isLE (h : ¬ (v.textOrder w).isLE) : (w.textOrder v).isLE := by
  rw [textOrder_swap]
  cases hvw : v.textOrder w with
  | lt | eq => simp [hvw] at h
  | gt => rfl

/-- Two values of which one is no number sort by their texts. -/
theorem order_eq_textOrder (h : v.IsNumber → ¬ w.IsNumber) : v.order w = v.textOrder w := by
  unfold order
  split
  next x y => exact absurd ⟨y, rfl⟩ (h ⟨x, rfl⟩)
  next => rfl

theorem order_number (hx : Number.isNaN x = false) (hy : Number.isNaN y = false) :
    (number x).order (number y) = compare (Number.rank x) (Number.rank y) := by
  have hswap : compare (Number.rank y) (Number.rank x) =
      (compare (Number.rank x) (Number.rank y)).swap := Std.OrientedOrd.eq_swap
  simp only [order, Number.lt_iff_rank hx hy, Number.lt_iff_rank hy hx, hswap]
  cases compare (Number.rank x) (Number.rank y) <;> rfl

theorem order_number_of_isNaN (h : Number.isNaN x = true ∨ Number.isNaN y = true) :
    (number x).order (number y) = .eq := by
  simp only [order, Number.not_lt_of_isNaN h, Number.not_lt_of_isNaN h.symm, ↓reduceIte]

/-- The order of two values does not depend on which is looked at first. -/
theorem order_swap (v w : Value) : w.order v = (v.order w).swap := by
  by_cases hnumbers : v.IsNumber ∧ w.IsNumber
  · obtain ⟨⟨x, rfl⟩, y, rfl⟩ := hnumbers
    by_cases hnan : Number.isNaN x = true ∨ Number.isNaN y = true
    · rw [order_number_of_isNaN hnan, order_number_of_isNaN hnan.symm]
      rfl
    · simp only [not_or, Bool.not_eq_true] at hnan
      rw [order_number hnan.1 hnan.2, order_number hnan.2 hnan.1]
      exact Std.OrientedOrd.eq_swap
  · rw [order_eq_textOrder fun hv hw => hnumbers ⟨hv, hw⟩,
      order_eq_textOrder fun hw hv => hnumbers ⟨hv, hw⟩]
    exact textOrder_swap v w

/-- By its text `v` belongs between the numbers `y` and `x`, the greater of which is `y`. -/
structure Disorders (v : Value) (x y : Float) : Prop where
  not_number : ¬ v.IsNumber
  less : x < y
  above : ((number y).textOrder v).isLE
  below : (v.textOrder (number x)).isLE

theorem order_of_lt (h : x < y) : (number y).order (number x) = .gt := by
  have hlt : (number x).order (number y) = .lt := if_pos h
  rw [order_swap, hlt]
  rfl

theorem lt_of_not_isLE (h : ¬ ((number x).order (number y)).isLE) : y < x := by
  simp only [order] at h
  split at h
  next => simp at h
  next =>
    split at h
    next hlt => exact hlt
    next => simp at h

/-- Of two numbers in order either the first is less, or both have one text. -/
theorem lt_or_toText_eq (hx : Number.isNaN x = false) (hy : Number.isNaN y = false)
    (h : ((number x).order (number y)).isLE) : x < y ∨ (number x).toText = (number y).toText := by
  rw [order_number hx hy, Ordering.isLE_iff_eq_lt_or_eq_eq] at h
  rcases h with hlt | heq
  · exact Or.inl ((Number.lt_iff_rank hx hy).mpr hlt)
  · exact Or.inr (Number.canonical_eq_of_rank_eq hx hy (Std.LawfulEqOrd.eq_of_compare heq))

theorem order_trans_of_numbers {z : Float} (hx : Number.isNaN x = false)
    (hy : Number.isNaN y = false) (hz : Number.isNaN z = false)
    (h : ((number x).order (number y)).isLE) (h' : ((number y).order (number z)).isLE) :
    ((number x).order (number z)).isLE := by
  rw [order_number hx hy] at h
  rw [order_number hy hz] at h'
  rw [order_number hx hz]
  exact Std.TransCmp.isLE_trans h h'

section Calm

variable (hnumber : ∀ x, p (.number x) → Number.isNaN x = false)
  (hcalm : ∀ v x y, p v → p (.number x) → p (.number y) → ¬ v.Disorders x y)

include hnumber hcalm

theorem order_trans_of_numbers_first (hx : p (.number x)) (hy : p (.number y)) (hw : p w)
    (htext : ¬ w.IsNumber) (h : ((number x).order (number y)).isLE)
    (h' : ((number y).textOrder w).isLE) : ((number x).textOrder w).isLE := by
  rcases lt_or_toText_eq (hnumber x hx) (hnumber y hy) h with hlt | heq
  · by_contra hgt
    exact hcalm w x y hw hx hy ⟨htext, hlt, h', textOrder_of_not_isLE hgt⟩
  · rwa [textOrder, heq]

theorem order_trans_of_numbers_last (hv : p v) (hx : p (.number x)) (hy : p (.number y))
    (htext : ¬ v.IsNumber) (h : (v.textOrder (number x)).isLE)
    (h' : ((number x).order (number y)).isLE) : (v.textOrder (number y)).isLE := by
  rcases lt_or_toText_eq (hnumber x hx) (hnumber y hy) h' with hlt | heq
  · by_contra hgt
    exact hcalm v x y hv hx hy ⟨htext, hlt, textOrder_of_not_isLE hgt, h⟩
  · rwa [textOrder, ← heq]

omit hnumber in
theorem order_trans_of_numbers_around (hx : p (.number x)) (hv : p v) (hy : p (.number y))
    (htext : ¬ v.IsNumber) (h : ((number x).textOrder v).isLE)
    (h' : (v.textOrder (number y)).isLE) : ((number x).order (number y)).isLE := by
  by_contra hgt
  exact hcalm v y x hv hy hx ⟨htext, lt_of_not_isLE hgt, h, h'⟩

/-- Where no text stands between two numbers the wrong way round, values sort transitively. -/
theorem transitiveOn_order : TransitiveOn order p := by
  intro u v w hu hv hw h h'
  -- Only two numbers compare as numbers, so the cases are which of the three pairs are such.
  by_cases huv : u.IsNumber ∧ v.IsNumber
  · obtain ⟨⟨x, rfl⟩, y, rfl⟩ := huv
    by_cases hw' : w.IsNumber
    · obtain ⟨z, rfl⟩ := hw'
      exact order_trans_of_numbers (hnumber x hu) (hnumber y hv) (hnumber z hw) h h'
    · rw [order_eq_textOrder fun _ => hw'] at h' ⊢
      exact order_trans_of_numbers_first hnumber hcalm hu hv hw hw' h h'
  have huv' : u.IsNumber → ¬ v.IsNumber := fun hu' hv' => huv ⟨hu', hv'⟩
  rw [order_eq_textOrder huv'] at h
  by_cases hvw : v.IsNumber ∧ w.IsNumber
  · have hu' : ¬ u.IsNumber := fun hu' => huv' hu' hvw.1
    obtain ⟨⟨x, rfl⟩, y, rfl⟩ := hvw
    rw [order_eq_textOrder fun hu'' => absurd hu'' hu']
    exact order_trans_of_numbers_last hnumber hcalm hu hv hw hu' h h'
  have hvw' : v.IsNumber → ¬ w.IsNumber := fun hv' hw' => hvw ⟨hv', hw'⟩
  rw [order_eq_textOrder hvw'] at h'
  by_cases huw : u.IsNumber ∧ w.IsNumber
  · have hv' : ¬ v.IsNumber := huv' huw.1
    obtain ⟨⟨x, rfl⟩, y, rfl⟩ := huw
    exact order_trans_of_numbers_around hcalm hu hv hw hv' h h'
  rw [order_eq_textOrder fun hu' hw' => huw ⟨hu', hw'⟩]
  exact textOrder_trans h h'

end Calm

/-- The order of two values does not depend on which is looked at first. Among values without a NaN
it is transitive exactly if no text or truth value belongs, by its text, between two numbers the
greater of which has the lesser text. -/
theorem order_swap_and_transitiveOn_iff (hnumber : ∀ x, p (.number x) → Number.isNaN x = false) :
    (∀ v w : Value, w.order v = (v.order w).swap) ∧
      (TransitiveOn order p ↔
        ∀ v x y, p v → p (.number x) → p (.number y) → ¬ v.Disorders x y) := by
  refine ⟨order_swap, ?_, transitiveOn_order hnumber⟩
  intro htrans v x y hv hx hy ⟨htext, hless, habove, hbelow⟩
  have hyv : ((number y).order v).isLE := by
    rw [order_eq_textOrder fun _ => htext]
    exact habove
  have hvx : (v.order (number x)).isLE := by
    rw [order_eq_textOrder fun hv => absurd hv htext]
    exact hbelow
  have hyx := htrans _ v _ hy hv hx hyv hvx
  rw [order_of_lt hless] at hyx
  cases hyx

/-- By its text "1a" belongs behind ten and before two. -/
theorem order_not_transitive :
    ¬ TransitiveOn order fun v => ∀ x, v = .number x → Number.isNaN x = false := by
  intro htrans
  have hnumber : ∀ y, Number.isNaN y = false →
      ∀ x, number y = .number x → Number.isNaN x = false := by
    rintro y hy x ⟨⟩
    exact hy
  have hle := htrans (.number 10) (.text "1a") (.number 2) (hnumber 10 (by decide +kernel))
    (by rintro x ⟨⟩) (hnumber 2 (by decide +kernel)) (by decide +kernel) (by decide +kernel)
  exact absurd hle (by decide +kernel)

/-- Two and ten sort transitively with "a", and not with "1a". -/
theorem order_swap_and_transitiveOn_iff_two_ten :
    (TransitiveOn order fun v => v ∈ [number 2, number 10, text "a"]) ∧
      ¬ TransitiveOn order fun v => v ∈ [number 2, number 10, text "1a"] := by
  have hmem : ∀ {t x}, number x ∈ [number 2, number 10, text t] → x = 2 ∨ x = 10 := by
    intro t x hx
    simpa using hx
  have hnumber : ∀ t x, number x ∈ [number 2, number 10, text t] → Number.isNaN x = false := by
    intro t x hx
    rcases hmem hx with rfl | rfl <;> decide +kernel
  constructor
  · refine (order_swap_and_transitiveOn_iff (hnumber "a")).2.mpr ?_
    rintro v x y hv hx - ⟨htext, -, -, hbelow⟩
    obtain rfl : v = text "a" := by
      simp only [List.mem_cons, List.not_mem_nil, or_false] at hv
      rcases hv with rfl | rfl | rfl
      · exact absurd ⟨2, rfl⟩ htext
      · exact absurd ⟨10, rfl⟩ htext
      · rfl
    rcases hmem hx with rfl | rfl
    · exact absurd hbelow (by decide +kernel)
    · exact absurd hbelow (by decide +kernel)
  · intro h
    refine (order_swap_and_transitiveOn_iff (hnumber "1a")).2.mp h (text "1a") 2 10 (by simp)
      (by simp) (by simp) ?_
    exact ⟨by rintro ⟨x, ⟨⟩⟩, by decide +kernel, by decide +kernel, by decide +kernel⟩

end Value

section Keys

variable {ascending : Bool} {p : Value → Prop}

theorem keyOrder_swap (ascending : Bool) (k l : Option Value) :
    keyOrder ascending l k = (keyOrder ascending k l).swap := by
  cases k with
  | none => cases l <;> rfl
  | some v =>
    cases l with
    | none => rfl
    | some w =>
      cases ascending with
      | true => exact Value.order_swap v w
      | false => exact congrArg Ordering.swap (Value.order_swap v w)

theorem keyOrder_total (ascending : Bool) (k l : Option Value) :
    ((keyOrder ascending k l).isLE || (keyOrder ascending l k).isLE) = true := by
  rw [keyOrder_swap ascending k l]
  cases keyOrder ascending k l <;> rfl

/-- Rows without a value do not disturb the order of the others, nor does its direction. -/
theorem transitiveOn_keyOrder (h : TransitiveOn Value.order p) (ascending : Bool) :
    TransitiveOn (keyOrder ascending) fun k => ∀ v, k = some v → p v := by
  intro k l m hk hl hm hkl hlm
  cases m with
  | none => cases k <;> rfl
  | some w =>
    cases l with
    | none => cases hlm
    | some v =>
      cases k with
      | none => cases hkl
      | some u =>
        cases ascending with
        | true => exact h u v w (hk u rfl) (hl v rfl) (hm w rfl) hkl hlm
        | false =>
          change ((u.order v).swap).isLE at hkl
          change ((v.order w).swap).isLE at hlm
          change ((u.order w).swap).isLE
          rw [← Value.order_swap] at hkl hlm ⊢
          exact h w v u (hm w rfl) (hl v rfl) (hk u rfl) hlm hkl

end Keys

end Recalc
