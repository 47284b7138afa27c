import Recalc.Csv.Import
import Recalc.Proofs.Address.Order

namespace Recalc.Csv

variable {col row number : Nat} {f : String} {fields : List String} {line : List Char}
  {ls : List (List Char)} {cs : List (Address × Cell)} {entry : Address × Cell}

theorem mem_rowCells_cons : entry ∈ rowCells row col (f :: fields) ↔
    (f ≠ "" ∧ entry = (⟨row, col⟩, cellOf f)) ∨ entry ∈ rowCells row (col + 1) fields := by
  rw [rowCells]
  by_cases hempty : f = ""
  · simp [hempty]
  · simp [hempty, String.isEmpty_iff]

/-- A row has a cell for each of its fields that is not empty. -/
theorem mem_rowCells_iff : entry ∈ rowCells row col fields ↔
    ∃ i f, fields[i]? = some f ∧ f ≠ "" ∧ entry = (⟨row, col + i⟩, cellOf f) := by
  induction fields generalizing col with
  | nil => simp [rowCells]
  | cons f fields ih =>
    rw [mem_rowCells_cons, ih]
    constructor
    · rintro (⟨hne, rfl⟩ | ⟨i, g, hg, hne, rfl⟩)
      · exact ⟨0, f, rfl, hne, rfl⟩
      · exact ⟨i + 1, g, hg, hne, by rw [Nat.add_assoc, Nat.add_comm 1]⟩
    · rintro ⟨i, g, hg, hne, rfl⟩
      cases i with
      | zero =>
        cases Option.some.inj hg
        exact Or.inl ⟨hne, rfl⟩
      | succ i => exact Or.inr ⟨i, g, hg, hne, by rw [Nat.add_assoc, Nat.add_comm 1]⟩

theorem ordered_rowCells (row col : Nat) (fields : List String) :
    ((rowCells row col fields).map (·.1)).Pairwise fun a b => compare a b = .lt := by
  induction fields generalizing col with
  | nil => exact .nil
  | cons field fields ih =>
    rw [rowCells]
    split
    · exact ih (col + 1)
    · refine List.pairwise_cons.mpr ⟨fun a ha => ?_, ih (col + 1)⟩
      obtain ⟨entry, hentry, rfl⟩ := List.mem_map.mp ha
      obtain ⟨i, f, _, _, rfl⟩ := mem_rowCells_iff.mp hentry
      exact Address.compare_eq_lt_iff.mpr (Or.inr ⟨rfl, by simp only; omega⟩)

theorem linesCells_cons_eq_ok_iff : linesCells col row number (line :: ls) = .ok cs ↔
    ∃ fields rest, fields? line = some fields ∧
      linesCells col (row + 1) (number + 1) ls = .ok rest ∧ cs = rowCells row col fields ++ rest := by
  rw [linesCells]
  cases fields? line with
  | none => simp
  | some fields =>
    cases linesCells col (row + 1) (number + 1) ls with
    | error err => simp [Except.map]
    | ok rest => simp [Except.map, eq_comm]

theorem mem_linesCells_iff (h : linesCells col row number ls = .ok cs) :
    entry ∈ cs ↔ ∃ i line fields, ls[i]? = some line ∧ fields? line = some fields ∧
      entry ∈ rowCells (row + i) col fields := by
  induction ls generalizing row number cs with
  | nil =>
    cases Except.ok.inj h
    simp
  | cons first ls ih =>
    obtain ⟨fields, rest, hfields, hrest, rfl⟩ := linesCells_cons_eq_ok_iff.mp h
    rw [List.mem_append, ih hrest]
    constructor
    · rintro (hentry | ⟨i, line, later, hline, hlater, hentry⟩)
      · exact ⟨0, first, fields, rfl, hfields, hentry⟩
      · refine ⟨i + 1, line, later, hline, hlater, ?_⟩
        rwa [Nat.add_comm i, ← Nat.add_assoc]
    · rintro ⟨i, line, later, hline, hlater, hentry⟩
      cases i with
      | zero =>
        cases Option.some.inj hline
        cases Option.some.inj (hfields.symm.trans hlater)
        exact Or.inl hentry
      | succ i =>
        refine Or.inr ⟨i, line, later, hline, hlater, ?_⟩
        rwa [Nat.add_comm i, ← Nat.add_assoc] at hentry

/-- The cells of a text come row by row, and from left to right within a row. -/
theorem ordered_linesCells (h : linesCells col row number ls = .ok cs) :
    (cs.map (·.1)).Pairwise fun a b => compare a b = .lt := by
  induction ls generalizing row number cs with
  | nil =>
    cases Except.ok.inj h
    exact .nil
  | cons line ls ih =>
    obtain ⟨fields, rest, hfields, hrest, rfl⟩ := linesCells_cons_eq_ok_iff.mp h
    rw [List.map_append, List.pairwise_append]
    refine ⟨ordered_rowCells row col fields, ih hrest, ?_⟩
    intro a ha b hb
    obtain ⟨first, hfirst, rfl⟩ := List.mem_map.mp ha
    obtain ⟨later, hlater, rfl⟩ := List.mem_map.mp hb
    -- The first row lies above the rows of the other lines.
    obtain ⟨i, f, _, _, rfl⟩ := mem_rowCells_iff.mp hfirst
    obtain ⟨j, line', fields', _, _, hlater⟩ := (mem_linesCells_iff hrest).mp hlater
    obtain ⟨k, g, _, _, rfl⟩ := mem_rowCells_iff.mp hlater
    exact Address.compare_eq_lt_iff.mpr (Or.inl (by simp only; omega))

/-- No two cells of a text are written to the same place. -/
theorem nodup_linesCells (h : linesCells col row number ls = .ok cs) : (cs.map (·.1)).Nodup :=
  Address.nodup_of_ordered (ordered_linesCells h)

theorem foldl_max_le_iff {α : Type} {f : α → Nat} {xs : List α} {start n : Nat} :
    xs.foldl (fun m x => max m (f x)) start ≤ n ↔ start ≤ n ∧ ∀ x ∈ xs, f x ≤ n := by
  induction xs generalizing start with
  | nil => simp
  | cons x xs ih =>
    rw [List.foldl_cons, ih, Nat.max_le, List.forall_mem_cons, and_assoc]

theorem rowsNeeded_le_iff {cs : List (Address × Cell)} {n : Nat} :
    rowsNeeded cs ≤ n ↔ ∀ entry ∈ cs, entry.1.row < n := by
  rw [rowsNeeded, foldl_max_le_iff]
  exact and_iff_right (Nat.zero_le n)

theorem colsNeeded_le_iff {cs : List (Address × Cell)} {n : Nat} :
    colsNeeded cs ≤ n ↔ ∀ entry ∈ cs, entry.1.col < n := by
  rw [colsNeeded, foldl_max_le_iff]
  exact and_iff_right (Nat.zero_le n)

end Recalc.Csv
