import Mathlib.Tactic.IntervalCases
import Recalc.Csv.Export
import Recalc.Proofs.Csv.Fields
import Recalc.Proofs.Csv.Lines
import Recalc.Proofs.Document.Import

namespace Recalc

theorem getElem?_map_range {α : Type} {g : Nat → α} {n i : Nat} {x : α} :
    ((List.range n).map g)[i]? = some x ↔ i < n ∧ g i = x := by
  rw [List.getElem?_map, Option.map_eq_some_iff]
  constructor
  · rintro ⟨j, hj, rfl⟩
    obtain ⟨hi, rfl⟩ := List.getElem?_eq_some_iff.mp hj
    rw [List.getElem_range]
    exact ⟨by simpa using hi, rfl⟩
  · rintro ⟨hi, rfl⟩
    exact ⟨i, List.getElem?_range hi, rfl⟩

namespace Csv

variable {fs fields : List String} {row : Nat} {entry : Address × Cell}

theorem mem_rowCells_joined (h : fields? (joined fs) = some fields) :
    entry ∈ rowCells row 0 fields ↔
      ∃ i f, fs[i]? = some f ∧ entry.1 = ⟨row, i⟩ ∧ fieldCell? (readBack f) = some entry.2 := by
  by_cases hfs : fs = []
  · -- The empty line has one field, which is empty.
    subst hfs
    obtain rfl : [""] = fields := Option.some.inj h
    simp [rowCells]
  · rw [fields?_joined hfs] at h
    obtain rfl := Option.some.inj h
    rw [mem_rowCells_iff]
    constructor
    · rintro ⟨i, f, hf, hne, rfl⟩
      obtain ⟨g, hg, rfl⟩ := Option.map_eq_some_iff.mp (List.getElem?_map.symm.trans hf)
      exact ⟨i, g, hg, by rw [Nat.zero_add], if_neg hne⟩
    · rintro ⟨i, f, hf, hplace, hcell⟩
      have hne : readBack f ≠ "" := by
        intro hempty
        rw [fieldCell?, if_pos hempty] at hcell
        cases hcell
      rw [fieldCell?, if_neg hne] at hcell
      refine ⟨i, readBack f, ?_, hne, ?_⟩
      · rw [List.getElem?_map, hf]
        rfl
      · rw [Nat.zero_add, ← hplace, Option.some.inj hcell]

end Csv

namespace Sheet

variable {s : Sheet} {policy : Policy} {a : Address} {traced : Bool}

end Sheet

namespace Document

variable {d : Document} {s : Sheet} {row : Nat}

/-- The texts that a row shows in an export. -/
def exportedRow (d : Document) (row : Nat) : List String :=
  (List.range d.sheet.cols).map fun col => (d.evaluateCell ⟨row, col⟩ false).exported

/-- No text of the row has a line feed in it. -/
def KeepsRow (d : Document) (row : Nat) : Prop := ∀ f ∈ d.exportedRow row, '\n' ∉ f.toList

theorem toList_csvRow (d : Document) (row : Nat) :
    (d.csvRow row).toList = Csv.joined (d.exportedRow row) := by
  rw [csvRow, String.toList_intercalate, Csv.joined, exportedRow, List.map_map, List.map_map]
  rfl

theorem toList_toCsv (d : Document) : d.toCsv.toList =
    ['\n'].intercalate ((List.range d.sheet.rows).map fun row => Csv.joined (d.exportedRow row)) := by
  have hrow : String.toList ∘ d.csvRow = fun row => Csv.joined (d.exportedRow row) :=
    funext d.toList_csvRow
  rw [toCsv, String.toList_intercalate, List.map_map, hrow]
  rfl

/-- An export whose rows are all kept is read as one cell for each text that is not empty, in its
own place. -/
theorem cells_toCsv (h : ∀ row < d.sheet.rows, d.KeepsRow row) :
    ∃ cs, Csv.cells d.toCsv 0 0 = .ok cs ∧ ∀ entry, entry ∈ cs ↔
      d.sheet.contains entry.1 = true ∧
        Csv.fieldCell? (Csv.readBack (d.evaluateCell entry.1 false).exported) = some entry.2 := by
  obtain ⟨lines, hlines⟩ : ∃ lines, lines =
    (List.range d.sheet.rows).map fun row => Csv.joined (d.exportedRow row) := ⟨_, rfl⟩
  have hone : ∀ r ∈ lines, Csv.OneLine r := by
    intro r hr
    rw [hlines] at hr
    obtain ⟨row, hrow, rfl⟩ := List.mem_map.mp hr
    exact .joined (h row (List.mem_range.mp hrow))
  have hclosed : ∀ r ∈ lines, Csv.fields? r ≠ none := by
    intro r hr
    rw [Ne, Csv.fields?_eq_none_iff, Nat.not_odd_iff_even]
    exact (hone r hr).even
  obtain ⟨cs, hcs⟩ := Csv.exists_linesCells hclosed 0 0 1
  have hcells : Csv.cells d.toCsv 0 0 = .ok cs := by
    rw [Csv.cells, Csv.lines, toList_toCsv, ← hlines, Csv.linesCells_intercalate hone, hcs]
  refine ⟨cs, hcells, fun entry => ?_⟩
  rw [Csv.mem_linesCells_iff hcs]
  constructor
  · rintro ⟨row, r, fields, hr, hfields, hentry⟩
    obtain ⟨hrow, rfl⟩ := getElem?_map_range.mp (hlines ▸ hr)
    obtain ⟨col, f, hf, hplace, hcell⟩ := (Csv.mem_rowCells_joined hfields).mp hentry
    obtain ⟨hcol, rfl⟩ := getElem?_map_range.mp hf
    rw [Nat.zero_add] at hplace
    rw [hplace]
    exact ⟨Sheet.contains_iff.mpr ⟨hrow, hcol⟩, hcell⟩
  · rintro ⟨hin, hcell⟩
    obtain ⟨hrow, hcol⟩ := Sheet.contains_iff.mp hin
    have hline : lines[entry.1.row]? = some (Csv.joined (d.exportedRow entry.1.row)) :=
      hlines ▸ getElem?_map_range.mpr ⟨hrow, rfl⟩
    obtain ⟨fields, hfields⟩ :=
      Option.ne_none_iff_exists'.mp (hclosed _ (List.mem_of_getElem? hline))
    refine ⟨entry.1.row, _, fields, hline, hfields, (Csv.mem_rowCells_joined hfields).mpr ?_⟩
    refine ⟨entry.1.col, _, getElem?_map_range.mpr ⟨hcol, rfl⟩, ?_, hcell⟩
    rw [Nat.zero_add]

/-- Of an export with a row that is not kept the first such row is reported. -/
theorem cells_toCsv_error (hrow : row < d.sheet.rows) (hbreaks : ¬ d.KeepsRow row)
    (hbefore : ∀ r < row, d.KeepsRow r) : Csv.cells d.toCsv 0 0 = .error (.csv (row + 1)) := by
  obtain ⟨k, hk⟩ := Nat.exists_eq_add_of_lt hrow
  have hone : ∀ r ∈ (List.range row).map fun row => Csv.joined (d.exportedRow row),
      Csv.OneLine r := by
    intro r hr
    obtain ⟨before, hlt, rfl⟩ := List.mem_map.mp hr
    exact .joined (hbefore before (List.mem_range.mp hlt))
  have hline : Csv.BreaksOff (Csv.joined (d.exportedRow row)) := by
    refine .joined ?_
    simpa [KeepsRow] using hbreaks
  rw [Csv.cells, Csv.lines, toList_toCsv, hk, Nat.add_assoc, List.range_add,
    List.range_succ_eq_map, List.map_append, List.map_cons, List.map_cons, Nat.add_zero,
    Csv.linesCells_intercalate_of_breaksOff hone hline, List.length_map, List.length_range,
    Nat.add_comm]

/-- The sheet has a cell for each text of the export that is not empty, in its own place, and it is
no larger than the exported one or than was asked for. -/
structure HoldsExport (d : Document) (minRows minCols : Nat) (s : Sheet) : Prop where
  rows : minRows ≤ s.rows ∧ s.rows ≤ max d.sheet.rows minRows
  cols : minCols ≤ s.cols ∧ s.cols ≤ max d.sheet.cols minCols
  get? : ∀ a, s.get? a = if d.sheet.contains a then
    Csv.fieldCell? (Csv.readBack (d.evaluateCell a false).exported) else none

theorem exists_ofCsv_toCsv (h : ∀ row < d.sheet.rows, d.KeepsRow row) (id name : String)
    (minRows minCols : Nat) : ∃ s, Sheet.ofCsv d.toCsv id name minRows minCols = .ok s ∧
      d.HoldsExport minRows minCols s := by
  obtain ⟨cs, hcs, hmem⟩ := cells_toCsv h
  have hin : ∀ entry ∈ cs, entry.1.row < d.sheet.rows ∧ entry.1.col < d.sheet.cols :=
    fun entry hentry => Sheet.contains_iff.mp ((hmem entry).mp hentry).1
  have hrows := Csv.rowsNeeded_le_iff.mpr fun entry hentry => (hin entry hentry).1
  have hcols := Csv.colsNeeded_le_iff.mpr fun entry hentry => (hin entry hentry).2
  refine ⟨_, Sheet.ofCsv_eq_ok_iff.mpr ⟨cs, hcs, rfl⟩, ?_, ?_, fun a => ?_⟩
  · rw [Sheet.overlay_rows]
    exact ⟨Nat.le_max_right _ _, max_le_max_right minRows hrows⟩
  · rw [Sheet.overlay_cols]
    exact ⟨Nat.le_max_right _ _, max_le_max_right minCols hcols⟩
  · refine Option.ext fun c => ?_
    rw [Sheet.get?_overlay_empty (Csv.nodup_linesCells hcs), hmem, Option.ite_none_right_eq_some]

/-- An export is read as what it shows, unless there is a line feed in one of its texts. Then the
first row with such a text is refused. -/
theorem ofCsv_toCsv (d : Document) (id name : String) (minRows minCols : Nat) :
    ((∀ row < d.sheet.rows, d.KeepsRow row) ∧
        ∃ s, Sheet.ofCsv d.toCsv id name minRows minCols = .ok s ∧
          d.HoldsExport minRows minCols s) ∨
      ∃ row < d.sheet.rows, ¬ d.KeepsRow row ∧ (∀ before < row, d.KeepsRow before) ∧
        Sheet.ofCsv d.toCsv id name minRows minCols = .error (.csv (row + 1)) := by
  by_cases hall : ∀ row < d.sheet.rows, d.KeepsRow row
  · exact Or.inl ⟨hall, exists_ofCsv_toCsv hall id name minRows minCols⟩
  · classical
    have hsome : ∃ row, row < d.sheet.rows ∧ ¬ d.KeepsRow row := by
      simpa using hall
    obtain ⟨hrow, hbreaks⟩ := Nat.find_spec hsome
    have hbefore : ∀ before < Nat.find hsome, d.KeepsRow before := by
      intro before hlt
      by_contra hnot
      exact Nat.find_min hsome hlt ⟨hlt.trans hrow, hnot⟩
    refine Or.inr ⟨Nat.find hsome, hrow, hbreaks, hbefore, ?_⟩
    rw [Sheet.ofCsv, cells_toCsv_error hrow hbreaks hbefore]
    rfl

/-- A text of two lines in the only cell. -/
def twoLines : Document :=
  load ((Sheet.empty "" "" 1 1).set ⟨0, 0⟩ (.literal (.text "a\nb"))) Policy.standard

theorem ofCsv_toCsv_twoLines : Sheet.ofCsv twoLines.toCsv "" "" 1 1 = .error (.csv 1) := by
  with_unfolding_all rfl

end Document

end Recalc
