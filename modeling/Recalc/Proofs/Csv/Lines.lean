import Mathlib.Data.List.Basic
import Recalc.Proofs.Csv.Cells
import Recalc.Proofs.Csv.Quoting

namespace Recalc.Csv

variable {cs rest : List Char} {f : String} {fs : List String}

/-- The characters are one line of a text, and no quote stays open in them. -/
structure OneLine (cs : List Char) : Prop where
  not_mem : '\n' ∉ cs
  getLast?_ne : cs.getLast? ≠ some '\r'
  even : Even (cs.count '"')

/-- The first line of the characters ends between quotes. -/
def BreaksOff (cs : List Char) : Prop :=
  ∃ line rest, cs = line ++ '\n' :: rest ∧ '\n' ∉ line ∧ Odd (line.count '"')

theorem OneLine.escape (h : '\n' ∉ f.toList) : OneLine (escape f).toList := by
  cases hquotes : needsQuotes f.toList with
  | false =>
    obtain ⟨_, hquote, hfeed, hreturn⟩ := not_mem_of_not_needsQuotes hquotes
    rw [escape_of_not_needsQuotes hquotes]
    refine ⟨hfeed, fun hlast => hreturn (List.mem_of_getLast? hlast), ?_⟩
    rw [List.count_eq_zero_of_not_mem hquote]
    exact Even.zero
  | true =>
    rw [toList_escape_of_needsQuotes hquotes]
    constructor
    case not_mem => simpa [mem_doubleQuotes] using h
    case getLast?_ne => simp [List.getLast?_cons]
    case even =>
      rw [List.count_cons_self, List.count_append, count_doubleQuotes]
      exact ⟨f.toList.count '"' + 1, by simp; omega⟩

theorem OneLine.append (h : OneLine cs) (hrest : OneLine rest) : OneLine (cs ++ ',' :: rest) := by
  refine ⟨?_, ?_, ?_⟩
  · simpa [h.not_mem] using hrest.not_mem
  · rw [List.getLast?_append, List.getLast?_cons, Option.some_or]
    cases hlast : rest.getLast? with
    | none => simp
    | some c => simpa [hlast] using hrest.getLast?_ne
  · rw [List.count_append, List.count_cons_of_ne (by decide)]
    exact h.even.add hrest.even

theorem OneLine.joined (h : ∀ f ∈ fs, '\n' ∉ f.toList) : OneLine (joined fs) := by
  induction fs with
  | nil => exact ⟨by simp [Csv.joined], by simp [Csv.joined], by simp [Csv.joined]⟩
  | cons f fs ih =>
    rw [List.forall_mem_cons] at h
    by_cases hfs : fs = []
    · subst hfs
      rw [joined_singleton]
      exact .escape h.1
    · rw [joined_cons hfs]
      exact (OneLine.escape h.1).append (ih h.2)

theorem BreaksOff.escape (h : '\n' ∈ f.toList) : BreaksOff (escape f).toList := by
  have hquotes : needsQuotes f.toList = true :=
    List.any_eq_true.mpr ⟨'\n', h, rfl⟩
  obtain ⟨line, rest, hsplit, hline⟩ := List.eq_append_cons_of_mem h
  refine ⟨'"' :: doubleQuotes line, doubleQuotes rest ++ ['"'], ?_, ?_, ?_⟩
  · rw [toList_escape_of_needsQuotes hquotes, hsplit, doubleQuotes, List.flatMap_append]
    simp [doubleQuotes]
  · simpa [mem_doubleQuotes] using hline
  · rw [List.count_cons_self, count_doubleQuotes]
    exact ⟨line.count '"', rfl⟩

theorem BreaksOff.append (h : BreaksOff cs) (rest : List Char) : BreaksOff (cs ++ rest) := by
  obtain ⟨line, later, rfl, hline, hodd⟩ := h
  exact ⟨line, later ++ rest, by simp, hline, hodd⟩

theorem OneLine.breaksOff_append (h : OneLine cs) (hrest : BreaksOff rest) :
    BreaksOff (cs ++ ',' :: rest) := by
  obtain ⟨line, later, rfl, hline, hodd⟩ := hrest
  refine ⟨cs ++ ',' :: line, later, by simp, by simpa [h.not_mem] using hline, ?_⟩
  rw [List.count_append, List.count_cons_of_ne (by decide)]
  exact h.even.add_odd hodd

/-- A line feed in a field breaks the row off in which the field stands. -/
theorem BreaksOff.joined (h : ∃ f ∈ fs, '\n' ∈ f.toList) : BreaksOff (joined fs) := by
  induction fs with
  | nil =>
    obtain ⟨f, hf, _⟩ := h
    cases hf
  | cons f fs ih =>
    rw [List.exists_mem_cons_iff] at h
    by_cases hfs : fs = []
    · subst hfs
      rw [joined_singleton]
      exact .escape (h.resolve_right (by simp))
    · rw [joined_cons hfs]
      by_cases hfeed : '\n' ∈ f.toList
      · exact (BreaksOff.escape hfeed).append _
      · exact (OneLine.escape hfeed).breaksOff_append (ih (h.resolve_left hfeed))

theorem linesFrom_append (h : '\n' ∉ cs) (current rest : List Char) :
    linesFrom current (cs ++ rest) = linesFrom (cs.reverse ++ current) rest := by
  induction cs generalizing current with
  | nil => rfl
  | cons c cs ih =>
    rw [List.mem_cons, not_or] at h
    rw [List.cons_append, linesFrom, if_neg (Ne.symm h.1), ih h.2, List.reverse_cons,
      List.append_assoc]
    rfl

theorem linesFrom_line (h : '\n' ∉ cs) (rest : List Char) :
    linesFrom [] (cs ++ '\n' :: rest) =
      (withoutReturn cs.reverse).reverse :: linesFrom [] rest := by
  rw [linesFrom_append h, linesFrom, if_pos rfl, List.append_nil]

theorem linesFrom_last (h : '\n' ∉ cs) : linesFrom [] cs = if cs.isEmpty then [] else [cs] := by
  have hlines := linesFrom_append h [] []
  rw [List.append_nil] at hlines
  rw [hlines, linesFrom]
  simp

theorem withoutReturn_reverse (h : cs.getLast? ≠ some '\r') :
    (withoutReturn cs.reverse).reverse = cs := by
  rcases List.eq_nil_or_concat cs with rfl | ⟨before, c, rfl⟩
  · rfl
  · rw [List.concat_eq_append, List.getLast?_concat, Ne, Option.some.injEq] at h
    rw [List.concat_eq_append, List.reverse_concat, withoutReturn]
    · rw [List.reverse_cons, List.reverse_reverse]
    · rintro cs ⟨⟩
      exact h rfl

theorem count_withoutReturn (cs : List Char) : (withoutReturn cs).count '"' = cs.count '"' := by
  unfold withoutReturn
  split
  next => exact (List.count_cons_of_ne (by decide)).symm
  next => rfl

variable {rows : List (List Char)} {col row number : Nat}

/-- Rows that are one line each are read as these lines. Only an empty line at the end is missing,
which gives no cell. -/
theorem linesCells_intercalate (h : ∀ r ∈ rows, OneLine r) (col row number : Nat) :
    linesCells col row number (linesFrom [] (['\n'].intercalate rows)) =
      linesCells col row number rows := by
  induction rows generalizing row number with
  | nil => rfl
  | cons r rows ih =>
    rw [List.forall_mem_cons] at h
    by_cases hrows : rows = []
    · subst hrows
      rw [List.intercalate_singleton, linesFrom_last h.1.not_mem]
      cases r with
      | nil => rfl
      | cons c r => rfl
    · rw [List.intercalate_cons_of_ne_nil hrows, List.append_assoc, List.singleton_append,
        linesFrom_line h.1.not_mem, withoutReturn_reverse h.1.getLast?_ne, linesCells, linesCells,
        ih h.2]

/-- The first row that breaks off is reported. -/
theorem linesCells_intercalate_of_breaksOff {before after : List (List Char)} {r : List Char}
    (hbefore : ∀ r ∈ before, OneLine r) (hbreaks : BreaksOff r) (col row number : Nat) :
    linesCells col row number (linesFrom [] (['\n'].intercalate (before ++ r :: after))) =
      .error (.csv (number + before.length)) := by
  induction before generalizing row number with
  | nil =>
    obtain ⟨line, rest, rfl, hline, hodd⟩ := hbreaks
    have hsplit : ∃ later, ['\n'].intercalate ((line ++ '\n' :: rest) :: after) =
        line ++ '\n' :: later := by
      by_cases hafter : after = []
      · subst hafter
        exact ⟨rest, List.intercalate_singleton⟩
      · refine ⟨rest ++ '\n' :: ['\n'].intercalate after, ?_⟩
        rw [List.intercalate_cons_of_ne_nil hafter]
        simp
    obtain ⟨later, hlater⟩ := hsplit
    have hopen : fields? (withoutReturn line.reverse).reverse = none := by
      rw [fields?_eq_none_iff, List.count_reverse, count_withoutReturn, List.count_reverse]
      exact hodd
    rw [List.nil_append, hlater, linesFrom_line hline, linesCells, hopen]
    rfl
  | cons first before ih =>
    rw [List.forall_mem_cons] at hbefore
    have hclosed : fields? first ≠ none := by
      rw [Ne, fields?_eq_none_iff, Nat.not_odd_iff_even]
      exact hbefore.1.even
    obtain ⟨fields, hfields⟩ := Option.ne_none_iff_exists'.mp hclosed
    rw [List.cons_append, List.intercalate_cons_of_ne_nil (by simp), List.append_assoc,
      List.singleton_append, linesFrom_line hbefore.1.not_mem,
      withoutReturn_reverse hbefore.1.getLast?_ne, linesCells, hfields, ih hbefore.2]
    simp only [Except.map, List.length_cons]
    rw [Nat.add_assoc, Nat.add_comm 1]

theorem exists_linesCells (h : ∀ r ∈ rows, fields? r ≠ none) (col row number : Nat) :
    ∃ cs, linesCells col row number rows = .ok cs := by
  induction rows generalizing row number with
  | nil => exact ⟨[], rfl⟩
  | cons r rows ih =>
    rw [List.forall_mem_cons] at h
    obtain ⟨fields, hfields⟩ := Option.ne_none_iff_exists'.mp h.1
    obtain ⟨cs, hcs⟩ := ih h.2 (row + 1) (number + 1)
    refine ⟨rowCells row col fields ++ cs, ?_⟩
    rw [linesCells, hfields, hcs]
    rfl

end Recalc.Csv
