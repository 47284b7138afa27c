import Mathlib.Data.List.Induction
import Recalc.Proofs.Csv.Lines

namespace Recalc.Csv

/-- The number of commas with an even number of quotes before them. -/
def separators (cs : List Char) : Nat :=
  (List.range cs.length).countP fun i => cs[i]? = some ',' ∧ Even ((cs.take i).count '"')

theorem separators_concat (cs : List Char) (c : Char) :
    separators (cs ++ [c]) =
      separators cs + if c = ',' ∧ Even (cs.count '"') then 1 else 0 := by
  have hbefore : (List.range cs.length).countP (fun i =>
        (cs ++ [c])[i]? = some ',' ∧ Even (((cs ++ [c]).take i).count '"')) =
      separators cs := by
    refine List.countP_congr fun i hi => ?_
    have hlt := List.mem_range.mp hi
    rw [List.getElem?_append_left hlt, List.take_append_of_le_length (Nat.le_of_lt hlt)]
  rw [separators, List.length_append, List.length_singleton, List.range_succ, List.countP_append,
    hbefore, List.countP_singleton, List.getElem?_concat_length,
    List.take_append_of_le_length (Nat.le_refl _), List.take_length]
  simp only [Option.some.injEq, decide_eq_true_eq]

theorem LineState.length_fields_read (s : LineState) (c : Char) :
    (s.read c).fields.length =
      s.fields.length + if c = ',' ∧ s.mode ≠ .quoted then 1 else 0 := by
  obtain ⟨mode, hasQuote, current, fields⟩ := s
  have hplain : ∀ mode, (readPlain ⟨mode, hasQuote, current, fields⟩ c).fields.length =
      fields.length + if c = ',' then 1 else 0 := by
    intro mode
    unfold readPlain
    split
    next hquote => rw [hquote]; rfl
    next =>
      split
      · exact List.length_cons
      · rfl
  cases mode with
  | plain => simp [read, hplain]
  | quoted =>
    rw [read]
    dsimp only
    split <;> simp
  | quoteSeen =>
    rw [read]
    dsimp only
    split
    next hquote => simp [hquote]
    next => simp [hplain]

/-- A field ends at each comma outside of quotes. -/
theorem length_fields_foldl_read (line : List Char) :
    (line.foldl LineState.read LineState.start).fields.length = separators line := by
  induction line using List.reverseRecOn with
  | nil => rfl
  | append_singleton line c ih =>
    have hopen : (line.foldl LineState.read LineState.start).mode ≠ .quoted ↔
        Even (line.count '"') := by
      rw [Ne, LineState.mode_foldl_read]
      simp [LineState.start]
    rw [List.foldl_append, List.foldl_cons, List.foldl_nil, LineState.length_fields_read, ih,
      separators_concat]
    simp only [hopen]

theorem length_fields?_eq (line : List Char) :
    (fields? line).map List.length =
      if Odd (line.count '"') then none else some (separators line + 1) := by
  split
  next hodd => rw [fields?_eq_none_iff.mpr hodd, Option.map_none]
  next heven =>
    obtain ⟨fs, hfs⟩ := Option.ne_none_iff_exists'.mp (mt fields?_eq_none_iff.mp heven)
    rw [hfs, Option.map_some]
    unfold fields? LineState.finish? at hfs
    split at hfs
    next => cases hfs
    next =>
      cases Option.some.inj hfs
      rw [List.length_reverse, List.length_cons, length_fields_foldl_read]

variable {col row number : Nat} {ls : List (List Char)} {e : EditError}

/-- The first line with an odd number of quotes is reported. -/
theorem linesCells_eq_error_iff : linesCells col row number ls = .error e ↔
    ∃ k line, ls[k]? = some line ∧ Odd (line.count '"') ∧
      (∀ l ∈ ls.take k, Even (l.count '"')) ∧ e = .csv (number + k) := by
  induction ls generalizing row number with
  | nil => simp [linesCells]
  | cons first ls ih =>
    rw [linesCells]
    cases hfields : fields? first with
    | none =>
      have hodd := fields?_eq_none_iff.mp hfields
      constructor
      · intro h
        cases h
        exact ⟨0, first, rfl, hodd, by simp, rfl⟩
      · rintro ⟨k, line, _, _, heven, rfl⟩
        cases k with
        | zero => rfl
        | succ k => exact absurd (heven first List.mem_cons_self) (Nat.not_even_iff_odd.mpr hodd)
    | some fields =>
      have hclosed : ¬ Odd (first.count '"') := fun hodd => by
        rw [fields?_eq_none_iff.mpr hodd] at hfields
        cases hfields
      have hlater : (linesCells col (row + 1) (number + 1) ls).map (rowCells row col fields ++ ·) =
          .error e ↔ linesCells col (row + 1) (number + 1) ls = .error e := by
        cases linesCells col (row + 1) (number + 1) ls with
        | ok rest => simp [Except.map]
        | error err => simp [Except.map]
      rw [hlater, ih]
      constructor
      · rintro ⟨k, line, hline, hodd, heven, rfl⟩
        refine ⟨k + 1, line, hline, hodd, ?_, by rw [Nat.add_assoc, Nat.add_comm 1]⟩
        exact List.forall_mem_cons.mpr ⟨Nat.not_odd_iff_even.mp hclosed, heven⟩
      · rintro ⟨k, line, hline, hodd, heven, rfl⟩
        cases k with
        | zero =>
          cases Option.some.inj hline
          exact absurd hodd hclosed
        | succ k =>
          exact ⟨k, line, hline, hodd, fun l hl => heven l (List.mem_cons_of_mem _ hl),
            by rw [Nat.add_assoc, Nat.add_comm 1]⟩

theorem exists_linesCells_iff : (∃ cs, linesCells col row number ls = .ok cs) ↔
    ∀ line ∈ ls, Even (line.count '"') := by
  constructor
  · rintro ⟨cs, hcs⟩
    induction ls generalizing row number cs with
    | nil => simp
    | cons first ls ih =>
      obtain ⟨fields, rest, hfields, hrest, rfl⟩ := linesCells_cons_eq_ok_iff.mp hcs
      refine List.forall_mem_cons.mpr ⟨Nat.not_odd_iff_even.mp fun hodd => ?_, ih rest hrest⟩
      rw [fields?_eq_none_iff.mpr hodd] at hfields
      cases hfields
  · intro heven
    refine exists_linesCells (fun line hline => ?_) col row number
    rw [Ne, fields?_eq_none_iff, Nat.not_odd_iff_even]
    exact heven line hline

/-- Quotes decide how a text is cut. A line with an odd number of them is refused, and the first such
line is reported. In other lines a comma is a separator if an even number of quotes stands before
it. The cells come row by row. -/
theorem cut_by_quote_parity :
    (∀ line, (fields? line).map List.length =
        if Odd (line.count '"') then none else some (separators line + 1)) ∧
      ∀ text col row,
        ((∃ e, cells text col row = .error e) ↔ ∃ line ∈ lines text, Odd (line.count '"')) ∧
        (∀ e, cells text col row = .error e ↔
          ∃ k line, (lines text)[k]? = some line ∧ Odd (line.count '"') ∧
            (∀ l ∈ (lines text).take k, Even (l.count '"')) ∧ e = .csv (k + 1)) ∧
        ∀ cs, cells text col row = .ok cs →
          ((cs.map (·.1)).Pairwise fun a b => compare a b = .lt) ∧ (cs.map (·.1)).Nodup := by
  refine ⟨length_fields?_eq, fun text col row => ⟨?_, fun e => ?_, fun cs hcs => ?_⟩⟩
  · have hok : (∃ cs, cells text col row = .ok cs) ↔ ∀ line ∈ lines text, Even (line.count '"') :=
      exists_linesCells_iff
    have herror : (∃ e, cells text col row = .error e) ↔ ¬ ∃ cs, cells text col row = .ok cs := by
      cases cells text col row with
      | ok cs => simp
      | error e => simp
    rw [herror, hok]
    simp only [not_forall, Nat.not_even_iff_odd, exists_prop]
  · rw [cells, linesCells_eq_error_iff]
    simp only [Nat.add_comm 1]
  · exact ⟨ordered_linesCells hcs, nodup_linesCells hcs⟩

/-- A doubled quote next to a comma, and a line with an open quote behind one without. -/
theorem cut_by_quote_parity_doubled :
    (fields? "a,\"b,\"\",\",c".toList).map List.length = some 3 ∧
      cells "a\n\"b" 0 0 = .error (.csv 2) ∧
      ∃ cs, cells "a,\"b,\"\",\",c\n,d" 0 0 = .ok cs ∧
        (cs.map (·.1)).Pairwise fun a b => compare a b = .lt := by
  obtain ⟨hfields, hcells⟩ := cut_by_quote_parity
  obtain ⟨_, herror, _⟩ := hcells "a\n\"b" 0 0
  obtain ⟨hrefused, _, hordered⟩ := hcells "a,\"b,\"\",\",c\n,d" 0 0
  refine ⟨?_, ?_, ?_⟩
  · rw [hfields]
    decide
  · exact (herror _).mpr ⟨1, ['"', 'b'], rfl, by decide, by decide, rfl⟩
  · cases hcs : cells "a,\"b,\"\",\",c\n,d" 0 0 with
    | error e => exact absurd (hrefused.mp ⟨e, hcs⟩) (by decide)
    | ok cs => exact ⟨cs, rfl, (hordered cs hcs).1⟩

end Recalc.Csv
