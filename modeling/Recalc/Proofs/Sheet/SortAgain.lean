import Recalc.Proofs.Evaluation.Relocation
import Recalc.Proofs.Sheet.SortedRows

namespace Recalc.Sheet

open Relation

variable {s t : Sheet} {policy : Policy} {o : RowSort}

theorem newPlace_range' (start n : Nat) (a : Address) :
    newPlace start (List.range' start n) a = a := by
  suffices hrow : newRow start (List.range' start n) a.row = a.row by rw [newPlace, hrow]
  by_cases hmem : a.row ∈ List.range' start n
  · obtain ⟨i, hi, hrow⟩ := List.mem_iff_getElem.mp hmem
    rw [← hrow, newRow_getElem List.nodup_range', List.getElem_range'_1]
  · exact newRow_of_not_mem hmem

/-- Rows that are in order stay where they are. -/
theorem moveRows_range' (s : Sheet) (start n : Nat) :
    s.moveRows start (List.range' start n) = s := by
  have hcells : (s.moveRows start (List.range' start n)).cells = s.cells := by
    refine Std.ExtTreeMap.ext_getElem? fun b => Option.ext fun c => ?_
    refine (get?_moveRows (List.Perm.refl _)).trans ?_
    simp only [newPlace_range', exists_eq_left]
    rfl
  obtain ⟨id, name, rows, cols, cells⟩ := s
  exact congrArg (Sheet.mk id name rows cols) hcells

/-- No key of the rows to sort is read, directly or through other formulas, from these rows. -/
def KeysApart (s : Sheet) (o : RowSort) : Prop :=
  ∀ row, o.startRow ≤ row → row ≤ o.endRow →
    ∀ b, TransGen s.Reads ⟨row, o.column⟩ b → b.row < o.startRow ∨ o.endRow < b.row

theorem getElem?_sortedRows (hspan : o.startRow ≤ o.endRow) {i row : Nat}
    (hrow : (s.sortedRows policy o)[i]? = some row) :
    o.startRow + i ≤ o.endRow ∧ o.startRow ≤ row ∧ row ≤ o.endRow := by
  obtain ⟨hi, -⟩ := List.getElem?_eq_some_iff.mp hrow
  have hlength := (perm_sortedRows s policy o).length_eq
  rw [List.length_range'] at hlength
  exact ⟨by omega, (mem_sortedRows hspan).mp (List.mem_of_getElem? hrow)⟩

/-- A row keeps its key when it is moved. -/
theorem sortKey_of_sort (h : s.sort policy o = .ok t) (hapart : s.KeysApart o) {i row : Nat}
    (hrow : (s.sortedRows policy o)[i]? = some row) :
    t.sortKey policy o.column (o.startRow + i) = s.sortKey policy o.column row := by
  obtain ⟨hspan, hrows, hcolumn, ht⟩ := sort_eq_ok_iff.mp h
  obtain ⟨hplace, hfirst, hlast⟩ := getElem?_sortedRows hspan hrow
  have hout := hapart row hfirst hlast
  have hspan_out : ∀ r, o.startRow ≤ r → r ≤ o.endRow →
      ¬ TransGen s.Reads ⟨row, o.column⟩ ⟨r, o.column⟩ := by
    intro r hr hr' hreach
    rcases hout _ hreach with hlow | hhigh
    · exact Nat.not_lt_of_le hr hlow
    · exact Nat.not_lt_of_le hr' hhigh
  have hagree : s.AgreeOn t (TransGen s.Reads ⟨row, o.column⟩) := by
    constructor
    case rows => rw [ht]; rfl
    case cols => rw [ht]; rfl
    case cells => exact fun b hb => (get?_of_sort_of_outside h (hout b hb)).symm
    case closed => exact fun b c hb hbc => hb.tail hbc
  have houtcome : (t.evaluateCell policy ⟨o.startRow + i, o.column⟩ false).outcome =
      (s.evaluateCell policy ⟨row, o.column⟩ false).outcome := by
    refine hagree.outcome_eq (get?_of_sort_getElem? h hrow o.column) ?_ ?_
      (hspan_out row hfirst hlast) (hspan_out _ (Nat.le_add_right _ _) hplace) fun b hb => .single hb
    · exact contains_iff.mpr ⟨Nat.lt_of_le_of_lt hlast hrows, hcolumn⟩
    · exact contains_iff.mpr ⟨Nat.lt_of_le_of_lt hplace hrows, hcolumn⟩
  rw [sortKey, sortKey, houtcome]

/-- After the sort the keys are in order, as they are evaluated then. -/
theorem pairwise_keyLE_of_sort (h : s.sort policy o = .ok t) (htrans : s.KeysTransitive policy o)
    (hapart : s.KeysApart o) :
    (List.range' o.startRow (o.endRow - o.startRow + 1)).Pairwise fun i j =>
      t.keyLE policy o i j := by
  have hspan := (sort_eq_ok_iff.mp h).1
  have hlength := (perm_sortedRows s policy o).length_eq
  have hordered := (rowsOrdered_sortedRows hspan htrans).ordered
  rw [List.pairwise_iff_getElem] at hordered ⊢
  intro i j hi hj hij
  have hkey : ∀ n (hn : n < (s.sortedRows policy o).length),
      t.sortKey policy o.column (o.startRow + n) =
        s.sortKey policy o.column (s.sortedRows policy o)[n] :=
    fun n hn => sortKey_of_sort h hapart (List.getElem?_eq_getElem hn)
  have hle := hordered i j (hlength ▸ hi) (hlength ▸ hj) hij
  rw [List.getElem_range'_1, List.getElem_range'_1, keyLE, hkey i (hlength ▸ hi),
    hkey j (hlength ▸ hj)]
  exact hle

/-- If the keys are ordered transitively and are not read from the rows that move, then a second
sort changes nothing, since the keys are in order after the first. -/
theorem sort_sort (h : s.sort policy o = .ok t) (htrans : s.KeysTransitive policy o)
    (hapart : s.KeysApart o) :
    t.sort policy o = .ok t ∧ ∀ i j, o.startRow ≤ i → i < j → j ≤ o.endRow →
      (keyOrder o.ascending (t.sortKey policy o.column i) (t.sortKey policy o.column j)).isLE := by
  obtain ⟨hspan, hrows, hcolumn, ht⟩ := sort_eq_ok_iff.mp h
  have hordered := pairwise_keyLE_of_sort h htrans hapart
  constructor
  · have hstay : t.sortedRows policy o = List.range' o.startRow (o.endRow - o.startRow + 1) := by
      rw [sortedRows_eq, List.mergeSort_of_pairwise hordered]
    refine sort_eq_ok_iff.mpr ⟨hspan, ?_, ?_, ?_⟩
    · rw [ht]
      exact hrows
    · rw [ht]
      exact hcolumn
    · rw [hstay, moveRows_range']
  · intro i j hi hij hj
    have hlt := List.pairwise_iff_getElem.mp hordered (i - o.startRow) (j - o.startRow)
      (by rw [List.length_range']; omega) (by rw [List.length_range']; omega) (by omega)
    rw [List.getElem_range'_1, List.getElem_range'_1, Nat.add_sub_of_le hi,
      Nat.add_sub_of_le (by omega)] at hlt
    exact hlt

/-- Below a text, a formula that refers to it and a lesser text. -/
def echo : Sheet :=
  (((Sheet.empty "s" "Sheet" 3 1).set ⟨0, 0⟩ (.literal (.text "b"))).set ⟨1, 0⟩
    (.formula "=A1" (some (.ref ⟨⟨0, 0⟩, ⟨false, false⟩⟩)))).set ⟨2, 0⟩ (.literal (.text "a"))

theorem echo_reads {a b : Address} (h : echo.Reads a b) : a = ⟨1, 0⟩ ∧ b = ⟨0, 0⟩ := by
  obtain ⟨c, hc, hb⟩ := h
  have hcell : a = ⟨1, 0⟩ ∧ c = .formula "=A1" (some (.ref ⟨⟨0, 0⟩, ⟨false, false⟩⟩)) ∨
      c.expr? = none := by
    rw [echo, get?_set, get?_set, get?_set, get?_empty] at hc
    grind [Cell.expr?]
  rcases hcell with ⟨rfl, rfl⟩ | hnone
  · exact ⟨rfl, eq_of_mem_dependencies_ref hb⟩
  · obtain ⟨e, he, _⟩ := mem_dependencies.mp hb
    rw [hnone] at he
    cases he

/-- The formula changes places with the lesser text, and a second sort leaves both there. -/
theorem sort_sort_echo : ∃ t, echo.sort Policy.standard ⟨1, 2, 0, true⟩ = .ok t ∧
    t.get? ⟨2, 0⟩ = echo.get? ⟨1, 0⟩ ∧ t.sort Policy.standard ⟨1, 2, 0, true⟩ = .ok t ∧
      (keyOrder true (t.sortKey Policy.standard 0 1) (t.sortKey Policy.standard 0 2)).isLE := by
  obtain ⟨t, hsort⟩ : ∃ t, echo.sort Policy.standard ⟨1, 2, 0, true⟩ = .ok t :=
    ⟨_, sort_eq_ok_iff.mpr ⟨by decide, by decide, by decide, rfl⟩⟩
  have hrows : (echo.sortedRows Policy.standard ⟨1, 2, 0, true⟩)[1]? = some 1 := by
    have hle : echo.keyLE Policy.standard ⟨1, 2, 0, true⟩ 1 2 = false := by decide +kernel
    rw [sortedRows_eq]
    show ([1, 2].mergeSort (echo.keyLE Policy.standard ⟨1, 2, 0, true⟩))[1]? = some 1
    simp [List.mergeSort, List.MergeSort.Internal.splitInTwo, hle]
  have hkeys : (List.range 3).map (echo.sortKey Policy.standard 0) =
      [some (.text "b"), some (.text "b"), some (.text "a")] := by
    with_unfolding_all rfl
  have htrans : echo.KeysTransitive Policy.standard ⟨1, 2, 0, true⟩ :=
    keysTransitive_of_no_numbers hkeys (by simp)
  have hapart : echo.KeysApart ⟨1, 2, 0, true⟩ := by
    intro row _ _ b hreach
    obtain ⟨c, _, hcb⟩ := TransGen.tail'_iff.mp hreach
    obtain ⟨-, rfl⟩ := echo_reads hcb
    exact Or.inl Nat.one_pos
  obtain ⟨hstay, hordered⟩ := sort_sort hsort htrans hapart
  exact ⟨t, hsort, get?_of_sort_getElem? hsort hrows 0, hstay,
    hordered 1 2 (by decide) (by decide) (by decide)⟩

end Recalc.Sheet
