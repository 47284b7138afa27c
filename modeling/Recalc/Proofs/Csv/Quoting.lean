import Mathlib.Algebra.Ring.Parity
import Recalc.Csv.Line

namespace Recalc.Csv

variable {cs rest : List Char} {c : Char} {s : LineState} {f : String} {fs done : List String}

/-- What is read of a field that was written: one without quotes loses the blanks around it. -/
def readBack (f : String) : String :=
  if needsQuotes f.toList then f else String.ofList (Text.stripBlanks f.toList)

/-- The line that some fields are written as. -/
def joined (fs : List String) : List Char :=
  [','].intercalate (fs.map fun f => (escape f).toList)

theorem joined_singleton : joined [f] = (escape f).toList := by
  rw [joined, List.map_singleton, List.intercalate_singleton]

theorem joined_cons (h : fs ≠ []) : joined (f :: fs) = (escape f).toList ++ ',' :: joined fs := by
  rw [joined, List.map_cons, List.intercalate_cons_of_ne_nil (by simpa using h), List.append_assoc]
  rfl

theorem toList_escape_of_needsQuotes (h : needsQuotes f.toList = true) :
    (escape f).toList = '"' :: (doubleQuotes f.toList ++ ['"']) := by
  simp only [escape, h, ↓reduceIte, String.toList_ofList, List.cons_append]

theorem escape_of_not_needsQuotes (h : needsQuotes f.toList = false) : escape f = f := by
  simp only [escape, h, Bool.false_eq_true, ↓reduceIte]

theorem not_mem_of_not_needsQuotes (h : needsQuotes cs = false) :
    ',' ∉ cs ∧ '"' ∉ cs ∧ '\n' ∉ cs ∧ '\r' ∉ cs := by
  have hplain : ∀ c ∈ cs, ¬ (c = ',' ∨ c = '"' ∨ c = '\n' ∨ c = '\r') := by
    simpa [needsQuotes, or_assoc] using h
  refine ⟨fun hc => ?_, fun hc => ?_, fun hc => ?_, fun hc => ?_⟩
  all_goals exact hplain _ hc (by simp)

theorem doubleQuotes_quote : doubleQuotes ('"' :: cs) = '"' :: '"' :: doubleQuotes cs :=
  rfl

theorem doubleQuotes_cons (h : c ≠ '"') : doubleQuotes (c :: cs) = c :: doubleQuotes cs := by
  rw [doubleQuotes, List.flatMap_cons, if_neg h]
  rfl

theorem count_doubleQuotes (cs : List Char) : (doubleQuotes cs).count '"' = 2 * cs.count '"' := by
  induction cs with
  | nil => rfl
  | cons c cs ih =>
    by_cases hc : c = '"'
    · subst hc
      rw [doubleQuotes_quote, List.count_cons_self, List.count_cons_self, ih, List.count_cons_self]
      omega
    · rw [doubleQuotes_cons hc, List.count_cons_of_ne hc, List.count_cons_of_ne hc, ih]

theorem mem_doubleQuotes : c ∈ doubleQuotes cs ↔ c ∈ cs := by
  induction cs with
  | nil => rfl
  | cons d cs ih =>
    by_cases hd : d = '"'
    · subst hd
      rw [doubleQuotes_quote, List.mem_cons, List.mem_cons, List.mem_cons, ih]
      exact or_self_left
    · rw [doubleQuotes_cons hd, List.mem_cons, List.mem_cons, ih]

namespace LineState

theorem foldl_read_plain (hcomma : ',' ∉ cs) (hquote : '"' ∉ cs) (quoted : Bool)
    (current : List Char) :
    cs.foldl read ⟨.plain, quoted, current, done⟩ = ⟨.plain, quoted, cs.reverse ++ current, done⟩ := by
  induction cs generalizing current with
  | nil => rfl
  | cons c cs ih =>
    rw [List.mem_cons, not_or] at hcomma hquote
    have hread : read ⟨.plain, quoted, current, done⟩ c = ⟨.plain, quoted, c :: current, done⟩ := by
      simp only [read, readPlain, Ne.symm hcomma.1, Ne.symm hquote.1, ↓reduceIte]
    rw [List.foldl_cons, hread, ih hcomma.2 hquote.2, List.reverse_cons, List.append_assoc]
    rfl

theorem foldl_read_doubleQuotes (cs current : List Char) :
    (doubleQuotes cs).foldl read ⟨.quoted, true, current, done⟩ =
      ⟨.quoted, true, cs.reverse ++ current, done⟩ := by
  induction cs generalizing current with
  | nil => rfl
  | cons c cs ih =>
    rw [List.reverse_cons, List.append_assoc]
    by_cases hc : c = '"'
    · subst hc
      exact ih ('"' :: current)
    · have hread : read ⟨.quoted, true, current, done⟩ c = ⟨.quoted, true, c :: current, done⟩ := by
        simp only [read, hc, ↓reduceIte]
      rw [doubleQuotes_cons hc, List.foldl_cons, hread]
      exact ih (c :: current)

/-- The field `f` has been read behind the fields `done`, which are given last first. -/
structure HasRead (s : LineState) (f : String) (done : List String) : Prop where
  closed : s.mode ≠ .quoted
  field : s.field = f
  fields : s.fields = done

theorem hasRead_escape (f : String) (done : List String) :
    ((escape f).toList.foldl read ⟨.plain, false, [], done⟩).HasRead (readBack f) done := by
  cases hquotes : needsQuotes f.toList with
  | false =>
    obtain ⟨hcomma, hquote, _⟩ := not_mem_of_not_needsQuotes hquotes
    rw [escape_of_not_needsQuotes hquotes, foldl_read_plain hcomma hquote]
    refine ⟨by simp, ?_, rfl⟩
    simp [LineState.field, readBack, hquotes]
  | true =>
    have hbody : (doubleQuotes f.toList).foldl read (read ⟨.plain, false, [], done⟩ '"') =
        ⟨.quoted, true, f.toList.reverse ++ [], done⟩ := foldl_read_doubleQuotes f.toList []
    rw [toList_escape_of_needsQuotes hquotes, List.foldl_cons, List.foldl_append, hbody]
    refine ⟨by simp [read], ?_, rfl⟩
    simp [read, LineState.field, readBack, hquotes]

theorem HasRead.comma (h : s.HasRead f done) : s.read ',' = ⟨.plain, false, [], f :: done⟩ := by
  obtain ⟨mode, hasQuote, current, fields⟩ := s
  obtain ⟨hclosed, rfl, rfl⟩ := h
  cases mode with
  | quoted => exact absurd rfl hclosed
  | plain | quoteSeen => rfl

theorem HasRead.finish? (h : s.HasRead f done) : s.finish? = some (f :: done).reverse := by
  obtain ⟨mode, hasQuote, current, fields⟩ := s
  obtain ⟨hclosed, rfl, rfl⟩ := h
  cases mode with
  | quoted => exact absurd rfl hclosed
  | plain | quoteSeen => rfl

theorem finish?_foldl_read_joined (h : fs ≠ []) (done : List String) :
    ((joined fs).foldl read ⟨.plain, false, [], done⟩).finish? =
      some (done.reverse ++ fs.map readBack) := by
  induction fs generalizing done with
  | nil => exact absurd rfl h
  | cons f fs ih =>
    have hread := hasRead_escape f done
    by_cases hfs : fs = []
    · subst hfs
      rw [joined_singleton, hread.finish?, List.reverse_cons]
      rfl
    · rw [joined_cons hfs, List.foldl_append, List.foldl_cons, hread.comma, ih hfs,
        List.reverse_cons, List.append_assoc]
      rfl

end LineState

/-- The fields of a line that was written are read back from it. -/
theorem fields?_joined (h : fs ≠ []) : fields? (joined fs) = some (fs.map readBack) :=
  LineState.finish?_foldl_read_joined h []

/-- Each quote opens a quotation or closes one. -/
theorem LineState.mode_read (s : LineState) (c : Char) :
    (s.read c).mode = .quoted ↔ (s.mode = .quoted ↔ c ≠ '"') := by
  obtain ⟨mode, hasQuote, current, fields⟩ := s
  by_cases hc : c = '"'
  · subst hc
    cases mode <;> simp [read, readPlain]
  · cases mode <;> simp [read, readPlain, hc, apply_ite LineState.mode]

theorem LineState.mode_foldl_read (s : LineState) (cs : List Char) :
    (cs.foldl read s).mode = .quoted ↔ (s.mode = .quoted ↔ Even (cs.count '"')) := by
  induction cs generalizing s with
  | nil => simp
  | cons c cs ih =>
    rw [List.foldl_cons, ih, mode_read, List.count_cons]
    by_cases hc : c = '"'
    · simp only [hc, beq_self_eq_true, ↓reduceIte, ne_eq, not_true_eq_false, iff_false,
        Nat.even_add_one]
      exact not_iff_comm.trans iff_comm
    · simp [hc]

/-- A line is refused exactly if the number of its quotes is odd. -/
theorem fields?_eq_none_iff {line : List Char} : fields? line = none ↔ Odd (line.count '"') := by
  have hmode := LineState.mode_foldl_read LineState.start line
  have hstart : LineState.start.mode ≠ .quoted := by simp [LineState.start]
  rw [← Nat.not_even_iff_odd]
  unfold fields? LineState.finish?
  split
  next hquoted => simpa [hstart, hquoted] using hmode
  next hclosed =>
    have hquoted : (line.foldl LineState.read LineState.start).mode ≠ .quoted := fun h => hclosed h
    simpa [hstart, hquoted] using hmode

end Recalc.Csv
