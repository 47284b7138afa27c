import Recalc.Proofs.Formula.Numerals
import Recalc.Proofs.Formula.Spelling

namespace Recalc

/-- The error at which a text stops, if it does not stop at its end. -/
def Stop.error? : Stop → Option ReadError
  | .finished _ => none
  | .broken e => some e

/-- A text that is read character by character: what is left of it, and how many of its characters
have been taken. -/
structure Cursor where
  rest : List Char
  pos : Nat

namespace Cursor

open Scan

/-- Take characters as long as they have the property. -/
def takeWhile (p : Char → Bool) (taken : List Char) : List Char → Nat → List Char × Cursor
  | [], pos => (taken, ⟨[], pos⟩)
  | c :: rest, pos =>
    if p c then takeWhile p (taken ++ [c]) rest (pos + 1) else (taken, ⟨c :: rest, pos⟩)

/-- Take digits, and a point if none has been taken. -/
def takeNumeral (pointed : Bool) (taken : List Char) : List Char → Nat → List Char × Cursor
  | [], pos => (taken, ⟨[], pos⟩)
  | c :: rest, pos =>
    if c.isDigit then takeNumeral pointed (taken ++ [c]) rest (pos + 1)
    else if c == '.' && !pointed then takeNumeral true (taken ++ [c]) rest (pos + 1)
    else (taken, ⟨c :: rest, pos⟩)

/-- Take what stands before the next quote, and the quote. -/
def takeQuoted? (taken : List Char) : List Char → Nat → Option (List Char × Cursor)
  | [], _ => none
  | c :: rest, pos =>
    if c = '"' then some (taken, ⟨rest, pos + 1⟩) else takeQuoted? (taken ++ [c]) rest (pos + 1)

/-- The mark that starts with `c`. One of two characters takes the next one, too. -/
def mark? (c : Char) (behind : Cursor) : Option (Lexeme × Cursor) :=
  match c, behind.rest with
  | '+', _ => some (.operator .add, behind)
  | '-', _ => some (.operator .sub, behind)
  | '*', _ => some (.operator .mul, behind)
  | '/', _ => some (.operator .div, behind)
  | '^', _ => some (.operator .pow, behind)
  | '=', _ => some (.operator .eq, behind)
  | '<', '>' :: rest => some (.operator .ne, ⟨rest, behind.pos + 1⟩)
  | '<', '=' :: rest => some (.operator .le, ⟨rest, behind.pos + 1⟩)
  | '<', _ => some (.operator .lt, behind)
  | '>', '=' :: rest => some (.operator .ge, ⟨rest, behind.pos + 1⟩)
  | '>', _ => some (.operator .gt, behind)
  | '(', _ => some (.leftParen, behind)
  | ')', _ => some (.rightParen, behind)
  | ',', _ => some (.comma, behind)
  | ':', _ => some (.colon, behind)
  | _, _ => none

/-- The text, number or word whose first character `c` has been taken at the place `pos`. -/
def unmarked (c : Char) (rest : List Char) (pos : Nat) : Except ReadError (Lexeme × Cursor) :=
  if c = '"' then
    match takeQuoted? [] rest (pos + 1) with
    | some (inner, behind) => .ok (.text (String.ofList inner), behind)
    | none => .error (.unterminatedString pos)
  else if c.isDigit || c == '.' then
    let (numeral, behind) := takeNumeral (c == '.') [c] rest (pos + 1)
    match Decimal.read? numeral with
    | some d => .ok (.number d.toFloat, behind)
    | none => .error (.unexpectedCharacter '.' pos)
  else if isWordStart c then
    let (word, behind) := takeWhile isWordChar [c] rest (pos + 1)
    .ok (classify word, behind)
  else .error (.unexpectedCharacter c pos)

/-- The lexeme whose first character `c` has been taken at the place `pos`. -/
def lexeme (c : Char) (rest : List Char) (pos : Nat) : Except ReadError (Lexeme × Cursor) :=
  match mark? c ⟨rest, pos + 1⟩ with
  | some read => .ok read
  | none => unmarked c rest pos

/-- The next lexeme with its place, or `none` with the place of the end. -/
def next (cursor : Cursor) : Except ReadError ((Option Lexeme × Nat) × Cursor) :=
  match (takeWhile Text.isBlank [] cursor.rest cursor.pos).2 with
  | ⟨[], pos⟩ => .ok ((none, pos), ⟨[], pos⟩)
  | ⟨c :: rest, pos⟩ => (lexeme c rest pos).map fun (l, behind) => ((some l, pos), behind)

/-- Read the text to its end or to an error, which is given with all that has been read by then.
There is no answer where this takes more than some number of turns. -/
def readAll : Nat → Cursor → List (Option Lexeme × Nat) →
    Option (List (Option Lexeme × Nat) × Option ReadError)
  | 0, _, _ => none
  | turns + 1, cursor, read =>
    match cursor.next with
    | .error e => some (read, some e)
    | .ok ((none, pos), _) => some (read ++ [(none, pos)], none)
    | .ok ((some l, pos), behind) => readAll turns behind (read ++ [(some l, pos)])

variable {c : Char} {rest taken cs : List Char} {l : Lexeme} {n pos : Nat}

theorem drop_length_takeWhile (p : Char → Bool) (cs : List Char) :
    cs.drop (cs.takeWhile p).length = cs.dropWhile p := by
  have hsplit : cs.takeWhile p ++ cs.dropWhile p = cs := List.takeWhile_append_dropWhile
  calc cs.drop (cs.takeWhile p).length
      = (cs.takeWhile p ++ cs.dropWhile p).drop (cs.takeWhile p).length := by rw [hsplit]
    _ = cs.dropWhile p := List.drop_left

theorem takeWhile_eq (p : Char → Bool) : takeWhile p taken cs pos =
    (taken ++ cs.takeWhile p, ⟨cs.dropWhile p, pos + (cs.takeWhile p).length⟩) := by
  induction cs generalizing taken pos with
  | nil => simp [takeWhile]
  | cons c cs ih =>
    rw [takeWhile]
    split
    next hc =>
      rw [ih, List.takeWhile_cons_of_pos hc, List.dropWhile_cons_of_pos hc, List.append_assoc,
        List.length_cons, Nat.add_assoc, Nat.add_comm 1]
      rfl
    next hc =>
      rw [List.takeWhile_cons_of_neg hc, List.dropWhile_cons_of_neg hc, List.append_nil]
      rfl

/-- Behind a point, a number is digits only. -/
theorem takeNumeral_pointed :
    takeNumeral true taken cs pos = takeWhile Char.isDigit taken cs pos := by
  induction cs generalizing taken pos with
  | nil => rfl
  | cons c cs ih =>
    rw [takeNumeral, takeWhile, ih]
    simp

theorem numeral_cons_of_isDigit (hc : c.isDigit = true) : numeral (c :: cs) = c :: numeral cs := by
  simp only [numeral, List.takeWhile_cons_of_pos hc, List.dropWhile_cons_of_pos hc]
  split <;> rfl

theorem numeral_cons_of_point : numeral ('.' :: cs) = '.' :: cs.takeWhile Char.isDigit := rfl

theorem numeral_cons_of_neither (hc : c.isDigit = false) (hpoint : c ≠ '.') :
    numeral (c :: cs) = [] := by
  have hdigit : ¬ c.isDigit = true := Bool.eq_false_iff.mp hc
  rw [numeral_of_no_point, List.takeWhile_cons_of_neg hdigit]
  intro part hpart
  rw [List.dropWhile_cons_of_neg hdigit] at hpart
  exact hpoint (List.cons.inj hpart).1

theorem takeNumeral_eq : takeNumeral false taken cs pos =
    (taken ++ numeral cs, ⟨cs.drop (numeral cs).length, pos + (numeral cs).length⟩) := by
  induction cs generalizing taken pos with
  | nil => simp [takeNumeral, numeral]
  | cons c cs ih =>
    rw [takeNumeral]
    split
    next hdigit =>
      rw [ih, numeral_cons_of_isDigit hdigit, List.append_assoc, List.length_cons, Nat.add_assoc,
        Nat.add_comm 1]
      rfl
    next hdigit =>
      split
      next hpoint =>
        obtain rfl : c = '.' := by simpa using hpoint
        rw [takeNumeral_pointed, takeWhile_eq, numeral_cons_of_point, List.append_assoc,
          List.length_cons, List.drop_succ_cons, drop_length_takeWhile, Nat.add_assoc,
          Nat.add_comm 1]
        rfl
      next hpoint =>
        have hne : c ≠ '.' := by simpa using hpoint
        rw [numeral_cons_of_neither (Bool.eq_false_iff.mpr hdigit) hne, List.append_nil]
        rfl

/-- The digits and the point of a number are taken, whichever of them comes first. -/
theorem takeNumeral_first (hc : (c.isDigit || c == '.') = true) :
    takeNumeral (c == '.') [c] rest (pos + 1) =
      (numeral (c :: rest), ⟨(c :: rest).drop (numeral (c :: rest)).length,
        pos + (numeral (c :: rest)).length⟩) := by
  by_cases hpoint : c = '.'
  · subst hpoint
    rw [numeral_cons_of_point, List.length_cons, List.drop_succ_cons, drop_length_takeWhile,
      Nat.add_comm (List.length _), ← Nat.add_assoc]
    exact takeNumeral_pointed.trans (takeWhile_eq _)
  · have hdigit : c.isDigit = true := by simpa [hpoint] using hc
    have hfalse : (c == '.') = false := by simpa using hpoint
    rw [hfalse, takeNumeral_eq, numeral_cons_of_isDigit hdigit, List.length_cons,
      List.drop_succ_cons, Nat.add_comm (List.length _), ← Nat.add_assoc]
    rfl

theorem takeQuoted?_append {inner later : List Char} (hinner : '"' ∉ inner) :
    takeQuoted? taken (inner ++ '"' :: later) pos =
      some (taken ++ inner, ⟨later, pos + inner.length + 1⟩) := by
  induction inner generalizing taken pos with
  | nil =>
    rw [List.append_nil]
    rfl
  | cons c inner ih =>
    have hc : c ≠ '"' := (List.ne_of_not_mem_cons hinner).symm
    rw [List.cons_append, takeQuoted?, if_neg hc, ih (List.not_mem_of_not_mem_cons hinner),
      List.append_assoc, List.length_cons, Nat.add_right_comm pos 1, ← Nat.add_assoc pos]
    rfl

theorem takeQuoted?_of_not_mem (h : '"' ∉ cs) : takeQuoted? taken cs pos = none := by
  induction cs generalizing taken pos with
  | nil => rfl
  | cons c cs ih =>
    have hc : c ≠ '"' := (List.ne_of_not_mem_cons h).symm
    rw [takeQuoted?, if_neg hc]
    exact ih (List.not_mem_of_not_mem_cons h)

theorem mark?_of_not_mem (hc : c ∉ markStarts) (behind : Cursor) : mark? c behind = none := by
  unfold mark?
  split <;> simp [markStarts] at hc ⊢

/-- What is taken for a lexeme that is read with `n` characters, or the error for none. -/
def taking (c : Char) (rest : List Char) (pos : Nat) :
    Option (Lexeme × Nat) → Except ReadError (Lexeme × Cursor)
  | some (l, n) => .ok (l, ⟨(c :: rest).drop n, pos + n⟩)
  | none => .error (refusal c pos)

theorem unmarked_quote : unmarked '"' rest pos = taking '"' rest pos (lexeme? '"' rest) := by
  by_cases hmem : '"' ∈ rest
  · obtain ⟨inner, later, rfl, hinner⟩ := List.eq_append_cons_of_mem hmem
    have hread := (spells_quoted hinner later).lexeme?_eq
    rw [List.append_assoc, List.length_append, List.singleton_append,
      List.length_singleton] at hread
    have hdrop : ('"' :: (inner ++ '"' :: later)).drop (inner.length + 1 + 1) = later := by simp
    rw [unmarked, if_pos rfl, takeQuoted?_append hinner, hread, taking, hdrop,
      Nat.add_right_comm pos 1]
    rfl
  · have hread : lexeme? '"' rest = none :=
      (lexeme?_eq_none_of_unreadable (.quote hmem : Unreadable pos _ _)).2.1
    rw [unmarked, if_pos rfl, takeQuoted?_of_not_mem hmem, hread]
    rfl

theorem length_of_number? (h : number? cs = some (l, n)) : n = (numeral cs).length := by
  simp only [number?] at h
  split at h
  next part hpart =>
    split at h
    next => cases h
    next =>
      cases h
      rw [numeral_of_point hpart, List.length_append, List.length_cons]
      omega
  next hnone =>
    cases h
    rw [numeral_of_no_point fun part hpart => hnone part hpart]

/-- Only a point alone is no number. -/
theorem of_number?_eq_none (h : number? (c :: rest) = none) :
    c = '.' ∧ numeral (c :: rest) = ['.'] := by
  simp only [number?] at h
  split at h
  next part hpart =>
    split at h
    next hempty =>
      obtain ⟨hwhole, htail⟩ := Bool.and_eq_true_iff.mp hempty
      have hsplit : (c :: rest).takeWhile Char.isDigit ++ (c :: rest).dropWhile Char.isDigit =
          c :: rest := List.takeWhile_append_dropWhile
      rw [List.isEmpty_iff] at hwhole htail
      rw [numeral_of_point hpart, hwhole, htail]
      rw [hwhole, hpart] at hsplit
      exact ⟨(List.cons.inj hsplit).1.symm, rfl⟩
    next => cases h
  next => cases h

theorem unmarked_number (hc : (c.isDigit || c == '.') = true) :
    unmarked c rest pos = taking c rest pos (number? (c :: rest)) := by
  have hquote : c ≠ '"' := by
    rintro rfl
    cases hc
  rw [unmarked, if_neg hquote, if_pos hc, takeNumeral_first hc]
  dsimp only
  cases hnumber : number? (c :: rest) with
  | none =>
    obtain ⟨rfl, hnumeral⟩ := of_number?_eq_none hnumber
    rw [hnumeral]
    rfl
  | some read =>
    obtain ⟨l, n⟩ := read
    obtain ⟨d, hread, -, rfl⟩ := read?_numeral hc hnumber
    rw [hread, length_of_number? hnumber]
    rfl

theorem unmarked_word (hc : isWordStart c = true) (hnumber : ¬ (c.isDigit || c == '.') = true) :
    unmarked c rest pos = taking c rest pos (lexeme? c rest) := by
  have hchar := isWordChar_of_isWordStart hc
  have hquote : c ≠ '"' := by
    rintro rfl
    cases hc
  have hread := lexeme?_of_isWordStart hc rest
  rw [unmarked, if_neg hquote, if_neg hnumber, if_pos hc, takeWhile_eq, hread, taking,
    drop_length_takeWhile, List.takeWhile_cons_of_pos hchar, List.dropWhile_cons_of_pos hchar,
    List.length_cons, Nat.add_right_comm pos]
  rfl

/-- The next character is looked at, and taken with the mark if both are one operator. -/
theorem lexeme_compared (hc : c = '<' ∨ c = '>') :
    lexeme c rest pos = taking c rest pos (lexeme? c rest) := by
  cases rest with
  | nil => rcases hc with rfl | rfl <;> rfl
  | cons d rest =>
    by_cases hequal : d = '='
    · subst hequal
      rcases hc with rfl | rfl <;> rfl
    by_cases hgreater : d = '>'
    · subst hgreater
      rcases hc with rfl | rfl <;> rfl
    rcases hc with rfl | rfl <;> simp [lexeme, mark?, lexeme?, taking, hequal, hgreater]

theorem lexeme_mark (hc : c ∈ markStarts) (hquote : c ≠ '"') :
    lexeme c rest pos = taking c rest pos (lexeme? c rest) := by
  by_cases hcompared : c = '<' ∨ c = '>'
  · exact lexeme_compared hcompared
  obtain ⟨hlt, hgt⟩ := not_or.mp hcompared
  simp only [markStarts, List.mem_cons, List.not_mem_nil, hquote, hlt, hgt, or_false,
    false_or] at hc
  rcases hc with rfl | rfl | rfl | rfl | rfl | rfl | rfl | rfl | rfl | rfl <;> rfl

theorem lexeme_eq : lexeme c rest pos = taking c rest pos (lexeme? c rest) := by
  by_cases hquote : c = '"'
  · subst hquote
    exact unmarked_quote
  by_cases hmark : c ∈ markStarts
  · exact lexeme_mark hmark hquote
  rw [lexeme, mark?_of_not_mem hmark, lexeme?_of_not_mem_markStarts hmark]
  dsimp only
  split
  next hnumber => exact unmarked_number hnumber
  next hnumber =>
    split
    next hword =>
      rw [unmarked_word hword hnumber, lexeme?_of_isWordStart hword]
    next hword =>
      rw [unmarked, if_neg hquote, if_neg hnumber, if_neg hword, taking, refusal, if_neg hquote]

end Cursor

namespace Scan

/-- Blanks before a token are passed over. -/
theorem ofChars_dropWhile (pos : Nat) (cs : List Char) : ofChars pos cs =
    ofChars (pos + (cs.takeWhile Text.isBlank).length) (cs.dropWhile Text.isBlank) := by
  induction cs generalizing pos with
  | nil => rfl
  | cons c cs ih =>
    by_cases hblank : Text.isBlank c = true
    · rw [ofChars_cons, if_pos hblank, ih, List.takeWhile_cons_of_pos hblank,
        List.dropWhile_cons_of_pos hblank, List.length_cons, Nat.add_assoc, Nat.add_comm 1]
    · rw [List.takeWhile_cons_of_neg hblank, List.dropWhile_cons_of_neg hblank]
      rfl

end Scan

namespace Cursor

open Scan

variable {cs : List Char} {pos : Nat}

/-- Each turn takes a character at least, so that one turn more than there are characters reads a
text to its end. -/
theorem readAll_eq {turns : Nat} (hturns : cs.length < turns) (read : List (Option Lexeme × Nat)) :
    readAll turns ⟨cs, pos⟩ read =
      some (read ++ (ofChars pos cs).symbols, (ofChars pos cs).stop.error?) := by
  induction turns generalizing cs pos read with
  | zero => omega
  | succ turns ih =>
    have hlength : (cs.dropWhile Text.isBlank).length ≤ cs.length :=
      (List.dropWhile_sublist _).length_le
    rw [readAll, next, takeWhile_eq, ofChars_dropWhile]
    generalize pos + (cs.takeWhile Text.isBlank).length = place
    cases hrest : cs.dropWhile Text.isBlank with
    | nil =>
      rw [ofChars_nil]
      rfl
    | cons c rest =>
      have hblank : Text.isBlank c = false :=
        not_of_mem_head?_dropWhile Text.isBlank cs c (by rw [hrest]; rfl)
      rw [hrest] at hlength
      dsimp only
      rw [lexeme_eq]
      cases hread : lexeme? c rest with
      | none =>
        rw [ofChars_cons, hblank, hread]
        simp [taking, Except.map, symbols, Stop.error?]
      | some found =>
        obtain ⟨l, n⟩ := found
        obtain ⟨chars, hlongest, rfl⟩ := lexeme?_eq_some_iff.mp hread
        obtain ⟨later, hchars⟩ := hlongest.begins
        rw [← hchars] at hlongest hlength ⊢
        obtain ⟨d, tail, rfl, -⟩ := hlongest.spells
        have hlater : later.length < turns := by
          rw [List.length_append, List.length_cons] at hlength
          omega
        rw [taking, ← hchars, List.drop_left, ofChars_of_spells hlongest.spells]
        simp only [Except.map]
        rw [ih hlater, List.append_assoc]
        rfl

end Cursor

end Recalc
