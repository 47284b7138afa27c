import Recalc.Document.Sort
import Recalc.Proofs.Graph.Order
import Recalc.Proofs.Sheet.Reads

namespace Recalc.Sheet

/-- Where a row comes to when `rows` are put in this order, the first of them at `start`. -/
def newRow (start : Nat) (rows : List Nat) (row : Nat) : Nat :=
  (Std.ExtTreeMap.ofList (rows.zip (List.range' start rows.length)) : Std.ExtTreeMap Nat Nat).getD
    row row

def newPlace (start : Nat) (rows : List Nat) (a : Address) : Address :=
  ⟨newRow start rows a.row, a.col⟩

section Rows

variable {start n : Nat} {rows : List Nat} {row : Nat}

theorem newRow_getElem (hnodup : rows.Nodup) {i : Nat} (hi : i < rows.length) :
    newRow start rows rows[i] = start + i := by
  have hkeys : ((rows.zip (List.range' start rows.length)).map Prod.fst).Nodup := by
    rwa [List.map_fst_zip (by simp)]
  refine Std.ExtTreeMap.getD_ofList_of_mem Std.compare_self ?_ ?_
  · refine (List.pairwise_map.mp hkeys).imp ?_
    intro p q hne heq
    exact hne (Std.compare_eq_iff_eq.mp heq)
  · refine List.mem_iff_getElem.mpr ⟨i, by simpa using hi, ?_⟩
    simp

theorem newRow_of_not_mem (h : row ∉ rows) : newRow start rows row = row := by
  refine Std.ExtTreeMap.getD_ofList_of_contains_eq_false ?_
  rw [List.map_fst_zip (by simp)]
  simpa using h

/-- A row that moves stays among the rows that move. -/
theorem newRow_mem (hperm : rows.Perm (List.range' start n)) (h : row ∈ rows) :
    newRow start rows row ∈ rows := by
  obtain ⟨i, hi, rfl⟩ := List.mem_iff_getElem.mp h
  have hnodup : rows.Nodup := hperm.nodup_iff.mpr List.nodup_range'
  have hlength : rows.length = n := by simpa using hperm.length_eq
  rw [newRow_getElem hnodup hi, hperm.mem_iff, List.mem_range'_1]
  omega

theorem newRow_mem_iff (hperm : rows.Perm (List.range' start n)) :
    newRow start rows row ∈ rows ↔ row ∈ rows := by
  refine ⟨fun h => ?_, newRow_mem hperm⟩
  by_contra hrow
  rw [newRow_of_not_mem hrow] at h
  exact hrow h

theorem newRow_injective (hperm : rows.Perm (List.range' start n)) :
    Function.Injective (newRow start rows) := by
  intro row other heq
  have hnodup : rows.Nodup := hperm.nodup_iff.mpr List.nodup_range'
  have hmem : row ∈ rows ↔ other ∈ rows := by
    rw [← newRow_mem_iff hperm, heq, newRow_mem_iff hperm]
  by_cases hrow : row ∈ rows
  · obtain ⟨i, hi, rfl⟩ := List.mem_iff_getElem.mp hrow
    obtain ⟨j, hj, rfl⟩ := List.mem_iff_getElem.mp (hmem.mp hrow)
    rw [newRow_getElem hnodup hi, newRow_getElem hnodup hj] at heq
    obtain rfl : i = j := by omega
    rfl
  · rwa [newRow_of_not_mem hrow, newRow_of_not_mem (mt hmem.mpr hrow)] at heq

theorem newPlace_injective (hperm : rows.Perm (List.range' start n)) :
    Function.Injective (newPlace start rows) := by
  rintro ⟨row, col⟩ ⟨other, col'⟩ heq
  obtain ⟨hrow, hcol⟩ := Address.mk.inj heq
  obtain rfl := newRow_injective hperm hrow
  obtain rfl := hcol
  rfl

end Rows

variable {s t : Sheet} {policy : Policy} {o : RowSort}

/-- A cell is found at its new place, and nothing else is stored. -/
theorem get?_moveRows {start n : Nat} {rows : List Nat} (hperm : rows.Perm (List.range' start n))
    {b : Address} {c : Cell} :
    (s.moveRows start rows).get? b = some c ↔ ∃ a, newPlace start rows a = b ∧ s.get? a = some c := by
  have hcells : (s.moveRows start rows).cells =
      Std.ExtTreeMap.ofList (s.occupied.map fun entry => (newPlace start rows entry.1, entry.2)) := by
    rw [Std.ExtTreeMap.ofList_eq_foldl, List.foldl_map]
    rfl
  have hdistinct : (s.occupied.map fun entry => (newPlace start rows entry.1, entry.2)).Pairwise
      fun p q => p.1 ≠ q.1 := by
    refine List.pairwise_map.mpr ((Std.ExtTreeMap.distinct_keys_toList (t := s.cells)).imp ?_)
    intro p q hne heq
    exact hne (Std.compare_eq_iff_eq.mpr (newPlace_injective hperm heq))
  rw [get?, hcells, getElem?_ofList_eq_some_iff hdistinct, List.mem_map]
  constructor
  · rintro ⟨⟨a, c'⟩, hmem, heq⟩
    obtain ⟨hplace, rfl⟩ := Prod.mk.inj heq
    exact ⟨a, hplace, mem_occupied.mp hmem⟩
  · rintro ⟨a, rfl, hc⟩
    exact ⟨(a, c), mem_occupied.mpr hc, rfl⟩

theorem perm_sortedRows (s : Sheet) (policy : Policy) (o : RowSort) :
    (s.sortedRows policy o).Perm (List.range' o.startRow (o.endRow - o.startRow + 1)) := by
  have hperm := (List.mergeSort_perm ((List.range' o.startRow (o.endRow - o.startRow + 1)).map
    fun row => (row, s.sortKey policy o.column row))
    fun x y => (keyOrder o.ascending x.2 y.2).isLE).map (·.1)
  rw [List.map_map] at hperm
  simpa [sortedRows, Function.comp_def] using hperm

theorem sort_eq_ok_iff : s.sort policy o = .ok t ↔
    o.startRow ≤ o.endRow ∧ o.endRow < s.rows ∧ o.column < s.cols ∧
      t = s.moveRows o.startRow (s.sortedRows policy o) := by
  unfold sort
  split
  next hbad =>
    simp only [reduceCtorEq, false_iff]
    omega
  next hgood =>
    rw [Except.ok.injEq]
    constructor
    · intro h
      exact ⟨by omega, by omega, by omega, h.symm⟩
    · rintro ⟨_, _, _, rfl⟩
      rfl

/-- A sort moves the cells of its rows among these rows. -/
theorem get?_of_sort (h : s.sort policy o = .ok t) {b : Address} {c : Cell} :
    t.get? b = some c ↔
      ∃ a, newPlace o.startRow (s.sortedRows policy o) a = b ∧ s.get? a = some c := by
  obtain ⟨_, _, _, rfl⟩ := sort_eq_ok_iff.mp h
  exact get?_moveRows (perm_sortedRows s policy o)

theorem get?_newPlace_of_sort (h : s.sort policy o = .ok t) (a : Address) :
    t.get? (newPlace o.startRow (s.sortedRows policy o) a) = s.get? a := by
  refine Option.ext fun c => (get?_of_sort h).trans ?_
  constructor
  · rintro ⟨b, hplace, hc⟩
    obtain rfl := newPlace_injective (perm_sortedRows s policy o) hplace
    exact hc
  · intro hc
    exact ⟨a, rfl, hc⟩

theorem mem_sortedRows {row : Nat} (h : o.startRow ≤ o.endRow) :
    row ∈ s.sortedRows policy o ↔ o.startRow ≤ row ∧ row ≤ o.endRow := by
  rw [(perm_sortedRows s policy o).mem_iff, List.mem_range'_1]
  omega

/-- All other rows stay as they are. -/
theorem get?_of_sort_of_outside (h : s.sort policy o = .ok t) {b : Address}
    (hrow : b.row < o.startRow ∨ o.endRow < b.row) : t.get? b = s.get? b := by
  have hspan := (sort_eq_ok_iff.mp h).1
  have hmem : b.row ∉ s.sortedRows policy o := by
    rw [mem_sortedRows hspan]
    omega
  have hstay : newPlace o.startRow (s.sortedRows policy o) b = b := by
    rw [newPlace, newRow_of_not_mem hmem]
  rw [← get?_newPlace_of_sort h, hstay]

/-- The row that stands in the `i`th place of the new order comes to the `i`th row of the span. -/
theorem get?_of_sort_getElem? (h : s.sort policy o = .ok t) {i row : Nat}
    (hrow : (s.sortedRows policy o)[i]? = some row) (col : Nat) :
    t.get? ⟨o.startRow + i, col⟩ = s.get? ⟨row, col⟩ := by
  obtain ⟨hi, rfl⟩ := List.getElem?_eq_some_iff.mp hrow
  have hnodup : (s.sortedRows policy o).Nodup :=
    (perm_sortedRows s policy o).nodup_iff.mpr List.nodup_range'
  rw [← get?_newPlace_of_sort h, newPlace, newRow_getElem hnodup hi]

end Recalc.Sheet
