import Mathlib.Logic.Relation
import Recalc.Graph.Links

namespace Recalc.Links

open Relation

/-- There is a link from `a` to `b`. -/
def Linked (m : Links) (a b : Address) : Prop := b ∈ m.of a

theorem count_eq_length (m : Links) :
    m.count = (m.toList.flatMap fun entry => entry.2.toList).length := by
  simp only [List.length_flatMap, Std.ExtTreeSet.length_toList, List.sum_eq_foldl, List.foldl_map]
  rfl

theorem linked_empty {a b : Address} : ¬ Linked ∅ a b := by
  simp [Linked, of]

theorem linked_link {m : Links} {a b x y : Address} :
    (m.link a b).Linked x y ↔ m.Linked x y ∨ (x = a ∧ y = b) := by
  unfold Linked of link
  by_cases hx : a = x
  · subst hx
    rw [Std.ExtTreeMap.getD_insert_self, Std.ExtTreeSet.mem_insert, Std.compare_eq_iff_eq]
    constructor
    · rintro (rfl | h)
      · exact Or.inr ⟨rfl, rfl⟩
      · exact Or.inl h
    · rintro (h | ⟨-, rfl⟩)
      · exact Or.inr h
      · exact Or.inl rfl
  · rw [Std.ExtTreeMap.getD_insert, if_neg (by simpa using hx)]
    have hne : ¬ (x = a ∧ y = b) := fun h => hx h.1.symm
    simp only [hne, or_false]

theorem linked_erase {m : Links} {a x y : Address} :
    Linked (m.erase a) x y ↔ x ≠ a ∧ m.Linked x y := by
  unfold Linked of
  rw [Std.ExtTreeMap.getD_erase]
  by_cases hx : a = x
  · subst hx
    simp
  · rw [if_neg (by simpa using hx)]
    exact ⟨fun h => ⟨Ne.symm hx, h⟩, fun h => h.2⟩

theorem linked_unlink {m : Links} {a b x y : Address} :
    (m.unlink a b).Linked x y ↔ m.Linked x y ∧ ¬ (x = a ∧ y = b) := by
  have herase : y ∈ (m.of a).erase b ↔ y ∈ m.of a ∧ y ≠ b := by
    rw [Std.ExtTreeSet.mem_erase, Std.compare_ne_eq_iff_ne, and_comm]
    exact and_congr_right fun _ => ne_comm
  unfold unlink
  by_cases hx : x = a
  · subst hx
    simp only [true_and]
    split
    next hempty =>
      -- The entry goes only when nothing but `b` was in it.
      have hnone : ∀ z, z ∉ (m.of x).erase b := by
        intro z hz
        rw [Std.ExtTreeSet.isEmpty_iff.mp hempty] at hz
        simp at hz
      rw [linked_erase]
      constructor
      · intro h
        exact absurd rfl h.1
      · intro h
        exact absurd (herase.mpr h) (hnone y)
    next =>
      unfold Linked
      rw [← ne_eq, ← herase]
      simp [of]
  · have hother : ¬ (x = a ∧ y = b) := fun h => hx h.1
    dsimp only
    split
    next =>
      rw [linked_erase]
      simp [hx]
    next =>
      unfold Linked of
      rw [Std.ExtTreeMap.getD_insert, if_neg (by simpa using Ne.symm hx)]
      simp [hother]

theorem linked_foldl_unlink {m : Links} {b x y : Address} {as : List Address} :
    (as.foldl (fun m a => m.unlink a b) m).Linked x y ↔ m.Linked x y ∧ ¬ (x ∈ as ∧ y = b) := by
  induction as generalizing m with
  | nil => simp
  | cons a as ih =>
    rw [List.foldl_cons, ih, linked_unlink, List.mem_cons]
    grind

theorem seen_subset_reach {m : Links} {seen : AddressSet} {waiting : List Address} {x : Address}
    (hx : x ∈ seen) : x ∈ m.reach seen waiting := by
  fun_induction reach m seen waiting with
  | case1 => exact hx
  | case2 seen a waiting _ ih => exact ih hx
  | case3 seen a waiting _ _ ih => exact ih (by simp [hx])
  | case4 seen a waiting _ _ ih => exact ih (by simp [hx])

theorem waiting_subset_reach {m : Links} {seen : AddressSet} {waiting : List Address} {x : Address}
    (hx : x ∈ waiting) : x ∈ m.reach seen waiting := by
  fun_induction reach m seen waiting with
  | case1 => simp at hx
  | case2 seen a waiting hs ih =>
    rcases List.mem_cons.mp hx with rfl | hx
    · exact seen_subset_reach hs
    · exact ih hx
  | case3 seen a waiting _ _ ih =>
    rcases List.mem_cons.mp hx with rfl | hx
    · exact seen_subset_reach (by simp)
    · exact ih (by simp [hx])
  | case4 seen a waiting _ _ ih =>
    rcases List.mem_cons.mp hx with rfl | hx
    · exact seen_subset_reach (by simp)
    · exact ih hx

/-- The search loses no link: what a seen address leads to is seen or waits, all along. -/
theorem reach_closed {m : Links} {seen : AddressSet} {waiting : List Address}
    (h : ∀ x ∈ seen, ∀ y, m.Linked x y → y ∈ seen ∨ y ∈ waiting) :
    ∀ x ∈ m.reach seen waiting, ∀ y, m.Linked x y → y ∈ m.reach seen waiting := by
  fun_induction reach m seen waiting with
  | case1 seen =>
    intro x hx y hy
    exact (h x hx y hy).resolve_right (by simp)
  | case2 seen a waiting hs ih =>
    apply ih
    intro x hx y hy
    rcases h x hx y hy with hy | hy
    · exact Or.inl hy
    · rcases List.mem_cons.mp hy with rfl | hy
      · exact Or.inl hs
      · exact Or.inr hy
  | case3 seen a waiting hs hm ih =>
    apply ih
    intro x hx y hy
    rcases Std.ExtTreeSet.mem_insert.mp hx with hax | hx
    · obtain rfl := Std.compare_eq_iff_eq.mp hax
      exact Or.inr (List.mem_append_left _ (Std.ExtTreeSet.mem_toList.mpr hy))
    · rcases h x hx y hy with hy | hy
      · exact Or.inl (by simp [hy])
      · rcases List.mem_cons.mp hy with rfl | hy
        · exact Or.inl (by simp)
        · exact Or.inr (List.mem_append_right _ hy)
  | case4 seen a waiting hs hm ih =>
    apply ih
    intro x hx y hy
    rcases Std.ExtTreeSet.mem_insert.mp hx with hax | hx
    · obtain rfl := Std.compare_eq_iff_eq.mp hax
      have hnone : m.of a = ∅ := Std.ExtTreeMap.getD_eq_fallback hm
      unfold Linked at hy
      rw [hnone] at hy
      simp at hy
    · rcases h x hx y hy with hy | hy
      · exact Or.inl (by simp [hy])
      · rcases List.mem_cons.mp hy with rfl | hy
        · exact Or.inl (by simp)
        · exact Or.inr hy

theorem reach_sound {m : Links} {seen : AddressSet} {waiting : List Address} {x : Address}
    (hx : x ∈ m.reach seen waiting) :
    x ∈ seen ∨ ∃ w ∈ waiting, ReflTransGen m.Linked w x := by
  fun_induction reach m seen waiting with
  | case1 => exact Or.inl hx
  | case2 seen a waiting _ ih =>
    rcases ih hx with h | ⟨w, hw, h⟩
    · exact Or.inl h
    · exact Or.inr ⟨w, List.mem_cons_of_mem _ hw, h⟩
  | case3 seen a waiting _ _ ih =>
    rcases ih hx with h | ⟨w, hw, h⟩
    · rcases Std.ExtTreeSet.mem_insert.mp h with hax | h
      · obtain rfl := Std.compare_eq_iff_eq.mp hax
        exact Or.inr ⟨a, List.mem_cons_self, .refl⟩
      · exact Or.inl h
    · rcases List.mem_append.mp hw with hw | hw
      · have hlink : m.Linked a w := Std.ExtTreeSet.mem_toList.mp hw
        exact Or.inr ⟨a, List.mem_cons_self, .head hlink h⟩
      · exact Or.inr ⟨w, List.mem_cons_of_mem _ hw, h⟩
  | case4 seen a waiting _ _ ih =>
    rcases ih hx with h | ⟨w, hw, h⟩
    · rcases Std.ExtTreeSet.mem_insert.mp h with hax | h
      · obtain rfl := Std.compare_eq_iff_eq.mp hax
        exact Or.inr ⟨a, List.mem_cons_self, .refl⟩
      · exact Or.inl h
    · exact Or.inr ⟨w, List.mem_cons_of_mem _ hw, h⟩

/-- A search that starts with nothing seen finds what can be reached over links, and no more. -/
theorem mem_reach {m : Links} {starts : List Address} {x : Address} :
    x ∈ m.reach ∅ starts ↔ ∃ w ∈ starts, ReflTransGen m.Linked w x := by
  constructor
  · intro hx
    exact (reach_sound hx).resolve_left (by simp)
  · rintro ⟨w, hw, h⟩
    have hstart : ∀ x ∈ (∅ : AddressSet), ∀ y, m.Linked x y → y ∈ (∅ : AddressSet) ∨ y ∈ starts := by
      simp
    have hclosed := reach_closed hstart
    induction h with
    | refl => exact waiting_subset_reach hw
    | tail _ hlink ih => exact hclosed _ ih _ hlink

end Recalc.Links
