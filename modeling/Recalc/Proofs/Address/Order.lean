import Mathlib.Data.List.Nodup
import Recalc.Address.Rect

namespace Recalc

namespace Address

theorem compare_eq_lt_iff {a b : Address} :
    compare a b = .lt ↔ a.row < b.row ∨ a.row = b.row ∧ a.col < b.col := by
  change Address.order a b = .lt ↔ _
  rw [Address.order, Ordering.then_eq_lt, Nat.compare_eq_lt, Nat.compare_eq_lt, Nat.compare_eq_eq]

theorem nodup_of_ordered {as : List Address} (h : as.Pairwise fun a b => compare a b = .lt) :
    as.Nodup := by
  refine h.imp fun {a b} hlt heq => ?_
  rw [heq, Std.compare_self] at hlt
  cases hlt

/-- Cells that stand row by row are determined by which they are. -/
theorem eq_of_ordered {xs ys : List Address} (hx : xs.Pairwise fun a b => compare a b = .lt)
    (hy : ys.Pairwise fun a b => compare a b = .lt) (hmem : ∀ a, a ∈ xs ↔ a ∈ ys) : xs = ys := by
  have hperm : xs.Perm ys :=
    (List.perm_ext_iff_of_nodup (nodup_of_ordered hx) (nodup_of_ordered hy)).mpr hmem
  refine hperm.eq_of_pairwise (fun a b _ _ hab hba => ?_) hx hy
  have hswap : compare b a = .gt := Std.OrientedCmp.gt_of_lt hab
  rw [hswap] at hba
  cases hba

end Address

theorem Rect.ordered_cells (r : Rect) : r.cells.Pairwise fun a b => compare a b = .lt := by
  have hrows : (List.range' r.top r.height).Pairwise (· < ·) := List.pairwise_lt_range'
  have hcols : (List.range' r.left r.width).Pairwise (· < ·) := List.pairwise_lt_range'
  refine List.pairwise_flatMap.mpr ⟨fun row _ => ?_, ?_⟩
  · refine List.pairwise_map.mpr (hcols.imp fun hlt => ?_)
    exact Address.compare_eq_lt_iff.mpr (Or.inr ⟨rfl, hlt⟩)
  · refine hrows.imp fun {above below} hlt a ha b hb => ?_
    obtain ⟨_, _, rfl⟩ := List.mem_map.mp ha
    obtain ⟨_, _, rfl⟩ := List.mem_map.mp hb
    exact Address.compare_eq_lt_iff.mpr (Or.inl hlt)

end Recalc
