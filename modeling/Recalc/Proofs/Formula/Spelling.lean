import Recalc.Proofs.Formula.Cutting

namespace Recalc

open Scan

namespace Lexeme

/-- The characters that spell a lexeme: digits, one at least, with at most one point among them; a
text between quotes; a word, which is taken in capitals; or the characters of a mark. -/
inductive Spelling : Lexeme → List Char → Prop
  | whole {digits : List Char} (hne : digits ≠ []) (hdigits : ∀ c ∈ digits, c.isDigit = true) :
      Spelling (.number (Decimal.mk false (Decimal.ofDigits digits) 0).toFloat) digits
  | pointed {whole part : List Char} (hne : whole ++ part ≠ [])
      (hdigits : ∀ c ∈ whole ++ part, c.isDigit = true) :
      Spelling
        (.number (Decimal.mk false (Decimal.ofDigits (whole ++ part)) (-part.length)).toFloat)
        (whole ++ '.' :: part)
  | text {inner : List Char} (hinner : '"' ∉ inner) :
      Spelling (.text (String.ofList inner)) ('"' :: (inner ++ ['"']))
  | cell {word : List Char} {t : AddressText} (hword : IsWord word) (ht : t.WellFormed)
      (hcapitals : word.map Char.toUpper = t.chars) :
      Spelling (.cell (String.ofList (word.map Char.toUpper))) word
  | bool {word : List Char} {b : Bool} (hword : IsWord word)
      (hcapitals : word.map Char.toUpper = (Lexeme.bool b).chars) : Spelling (.bool b) word
  | name {word : List Char} (hword : IsWord word)
      (hcell : ∀ t : AddressText, t.WellFormed → word.map Char.toUpper ≠ t.chars)
      (hbool : ∀ b, word.map Char.toUpper ≠ (Lexeme.bool b).chars) :
      Spelling (.name (String.ofList (word.map Char.toUpper))) word
  | mark {l : Lexeme} (hl : l.isMark = true) : Spelling l l.chars

/-- The text begins with characters that spell the lexeme, and with no others that are more and
spell one. -/
structure Longest (l : Lexeme) (chars text : List Char) : Prop where
  spelling : l.Spelling chars
  begins : chars <+: text
  length_le : ∀ l' longer, Spelling l' longer → longer <+: text → longer.length ≤ chars.length

end Lexeme

namespace Scan

variable {c : Char} {cs rest word digits whole part : List Char} {l : Lexeme} {n : Nat}

theorem lexeme?_of_numberStart (hc : (c.isDigit || c == '.') = true) (rest : List Char) :
    lexeme? c rest = number? (c :: rest) := by
  have hmark : c ∉ markStarts := by
    rcases Bool.or_eq_true_iff.mp hc with hdigit | hpoint
    · exact not_mem_markStarts (isWordChar_of_isDigit hdigit)
    · rw [beq_iff_eq.mp hpoint]
      decide
  rw [lexeme?_of_not_mem_markStarts hmark, if_pos hc]

theorem not_isBlank_of_numberStart (hc : (c.isDigit || c == '.') = true) :
    Text.isBlank c = false := by
  rcases Bool.or_eq_true_iff.mp hc with hdigit | hpoint
  · exact not_isBlank_of_isWordChar (isWordChar_of_isDigit hdigit)
  · rw [beq_iff_eq.mp hpoint]
    rfl

theorem numberStart_of_pointed (hdigits : ∀ d ∈ whole ++ part, d.isDigit = true)
    (hchars : whole ++ '.' :: part = c :: cs) : (c.isDigit || c == '.') = true := by
  cases whole with
  | nil =>
    obtain ⟨rfl, -⟩ := List.cons.inj hchars
    rfl
  | cons d whole =>
    obtain ⟨rfl, -⟩ := List.cons.inj hchars
    have hdigit := hdigits d (by simp)
    rw [hdigit, Bool.true_or]

theorem isEmpty_and_eq_false (hne : whole ++ part ≠ []) :
    (whole.isEmpty && part.isEmpty) = false := by
  simpa [← not_and_or] using hne

/-- What stands behind digits may be read together with them. -/
theorem exists_number?_of_digits (hne : digits ≠ []) (hdigits : ∀ c ∈ digits, c.isDigit = true)
    (more : List Char) : ∃ l n, number? (digits ++ more) = some (l, n) ∧ digits.length ≤ n := by
  have htake : (digits ++ more).takeWhile Char.isDigit = digits ++ more.takeWhile Char.isDigit :=
    List.takeWhile_append_of_pos hdigits
  have hdrop : (digits ++ more).dropWhile Char.isDigit = more.dropWhile Char.isDigit :=
    List.dropWhile_append_of_pos hdigits
  have hlength : digits.length ≤ (digits ++ more.takeWhile Char.isDigit).length := by simp
  have hempty : (digits ++ more.takeWhile Char.isDigit).isEmpty = false := by simp [hne]
  simp only [number?, htake, hdrop, hempty, Bool.false_and, Bool.false_eq_true, ↓reduceIte]
  split
  next part => exact ⟨_, _, rfl, by omega⟩
  next => exact ⟨_, _, rfl, hlength⟩

theorem exists_number?_of_pointed (hne : whole ++ part ≠ [])
    (hdigits : ∀ c ∈ whole ++ part, c.isDigit = true) (more : List Char) :
    ∃ l n, number? (whole ++ '.' :: part ++ more) = some (l, n) ∧
      (whole ++ '.' :: part).length ≤ n := by
  obtain ⟨hwhole, hpart⟩ := List.forall_mem_append.mp hdigits
  have hlonger : ∀ c ∈ part ++ more.takeWhile Char.isDigit, c.isDigit = true :=
    List.forall_mem_append.mpr ⟨hpart, fun c hc => List.mem_takeWhile_imp hc⟩
  have hempty : (whole.isEmpty && (part ++ more.takeWhile Char.isDigit).isEmpty) = false := by
    refine isEmpty_and_eq_false ?_
    rw [← List.append_assoc]
    exact List.append_ne_nil_of_left_ne_nil hne _
  have hread := number?_pointed hempty hwhole hlonger (not_of_mem_head?_dropWhile _ more)
  have hchars : whole ++ '.' :: (part ++ more.takeWhile Char.isDigit) ++
      more.dropWhile Char.isDigit = whole ++ '.' :: part ++ more := by
    simp [List.takeWhile_append_dropWhile]
  rw [hchars] at hread
  exact ⟨_, _, hread, by simp⟩

theorem spelling_of_number? (hc : (c.isDigit || c == '.') = true)
    (h : number? (c :: rest) = some (l, n)) :
    ∃ chars later, c :: rest = chars ++ later ∧ n = chars.length ∧ l.Spelling chars := by
  have hpos := number?_pos hc h
  rcases number?_cases h with ⟨digits, later, hcs, hdigits, _, rfl, rfl⟩ |
    ⟨whole, part, later, hcs, hempty, hdigits, _, rfl, rfl⟩
  · exact ⟨digits, later, hcs, rfl, .whole (List.ne_nil_of_length_pos hpos) hdigits⟩
  · refine ⟨_, later, hcs, rfl, .pointed (fun hnil => ?_) hdigits⟩
    obtain ⟨rfl, rfl⟩ := List.append_eq_nil_iff.mp hnil
    cases hempty

theorem spelling_of_quoted? (h : quoted? rest = some (l, n)) :
    ∃ chars later, '"' :: rest = chars ++ later ∧ n = chars.length ∧ l.Spelling chars := by
  obtain ⟨inner, later, rfl, hinner, rfl, rfl⟩ := quoted?_cases h
  exact ⟨'"' :: (inner ++ ['"']), later, by simp, by simp, .text hinner⟩

theorem classify_of_address {t : AddressText} (ht : t.WellFormed)
    (hcapitals : word.map Char.toUpper = t.chars) :
    classify word = .cell (String.ofList (word.map Char.toUpper)) := by
  have hread : (AddressText.read? (word.map Char.toUpper)).isSome = true := by
    rw [hcapitals, AddressText.read?_chars ht]
    rfl
  rw [classify, if_pos hread]

theorem classify_of_bool {b : Bool} (hcapitals : word.map Char.toUpper = (Lexeme.bool b).chars) :
    classify word = .bool b := by
  rw [classify, hcapitals]
  cases b <;> rfl

theorem classify_of_name (hcell : ∀ t : AddressText, t.WellFormed → word.map Char.toUpper ≠ t.chars)
    (hbool : ∀ b, word.map Char.toUpper ≠ (Lexeme.bool b).chars) :
    classify word = .name (String.ofList (word.map Char.toUpper)) := by
  have hread : ¬ (AddressText.read? (word.map Char.toUpper)).isSome = true := by
    intro hsome
    obtain ⟨t, ht⟩ := Option.isSome_iff_exists.mp hsome
    obtain ⟨hformed, hchars⟩ := AddressText.chars_of_read? ht
    exact hcell t hformed hchars.symm
  have htrue : word.map Char.toUpper ≠ "TRUE".toList := hbool true
  have hfalse : word.map Char.toUpper ≠ "FALSE".toList := hbool false
  rw [classify, if_neg hread, if_neg htrue, if_neg hfalse]

theorem spelling_classify (h : IsWord word) : (classify word).Spelling word := by
  simp only [classify]
  split
  next hcell =>
    obtain ⟨t, ht⟩ := Option.isSome_iff_exists.mp hcell
    obtain ⟨hformed, hchars⟩ := AddressText.chars_of_read? ht
    exact .cell h hformed hchars.symm
  next hcell =>
    split
    next htrue => exact .bool h htrue
    next htrue =>
      split
      next hfalse => exact .bool h hfalse
      next hfalse =>
        refine .name h (fun t ht hchars => hcell ?_) (fun b => ?_)
        · rw [hchars, AddressText.read?_chars ht]
          rfl
        · cases b with
          | true => exact htrue
          | false => exact hfalse

/-- A lexeme is read from characters that spell it. -/
theorem spelling_of_lexeme? (h : lexeme? c rest = some (l, n)) :
    ∃ chars later, c :: rest = chars ++ later ∧ n = chars.length ∧ l.Spelling chars := by
  by_cases hquote : c = '"'
  · subst hquote
    exact spelling_of_quoted? h
  by_cases hmark : c ∈ markStarts
  · obtain ⟨mark, later, hl, hchars, hlater⟩ := exists_mark hmark hquote rest
    rw [lexeme?_of_mark hl hchars hlater] at h
    cases h
    exact ⟨_, later, hchars, rfl, .mark hl⟩
  rw [lexeme?_of_not_mem_markStarts hmark] at h
  split at h
  next hc => exact spelling_of_number? hc h
  next =>
    split at h
    next hword =>
      cases h
      exact ⟨_, _, List.takeWhile_append_dropWhile.symm, rfl,
        spelling_classify (isWord_takeWhile hword rest)⟩
    next => cases h

end Scan

namespace Lexeme

variable {cs tail : List Char} {c : Char} {l l' : Lexeme}

/-- Characters that spell a lexeme are read as this one where nothing follows. -/
theorem Spelling.spells (h : l.Spelling cs) : Spells cs l [] := by
  have hend : ∀ p : Char → Prop, ∀ c ∈ ([] : List Char).head?, p c := by simp
  cases h with
  | whole hne hdigits =>
    obtain ⟨c, tail, rfl⟩ := List.exists_cons_of_ne_nil hne
    have hc : (c.isDigit || c == '.') = true := by
      rw [hdigits c List.mem_cons_self, Bool.true_or]
    refine ⟨c, tail, rfl, not_isBlank_of_numberStart hc, ?_⟩
    rw [lexeme?_of_numberStart hc]
    exact number?_whole hdigits (hend _)
  | @pointed whole part hne hdigits =>
    obtain ⟨hwhole, hpart⟩ := List.forall_mem_append.mp hdigits
    have hread := number?_pointed (isEmpty_and_eq_false hne) hwhole hpart (hend _)
    obtain ⟨c, tail, hcs⟩ : ∃ c tail, whole ++ '.' :: part = c :: tail :=
      List.exists_cons_of_ne_nil (by simp)
    have hc := numberStart_of_pointed hdigits hcs
    rw [hcs] at hread ⊢
    refine ⟨c, tail, rfl, not_isBlank_of_numberStart hc, ?_⟩
    rw [lexeme?_of_numberStart hc]
    exact hread
  | text hinner => exact spells_quoted hinner []
  | cell hword ht hcapitals =>
    rw [← classify_of_address ht hcapitals]
    exact hword.spells (hend _)
  | bool hword hcapitals =>
    rw [← classify_of_bool hcapitals]
    exact hword.spells (hend _)
  | name hword hcell hbool =>
    rw [← classify_of_name hcell hbool]
    exact hword.spells (hend _)
  | mark hl => exact spells_mark hl (hend _)

theorem Spelling.unique (h : l.Spelling cs) (h' : l'.Spelling cs) : l = l' := by
  obtain ⟨c, tail, rfl, -, hread⟩ := h.spells
  obtain ⟨d, tail', hcs, -, hread'⟩ := h'.spells
  obtain ⟨rfl, rfl⟩ := List.cons.inj hcs
  have hsame := hread.symm.trans hread'
  exact (Prod.mk.inj (Option.some.inj hsame)).1

theorem exists_lexeme?_of_isWord (h : IsWord (c :: tail)) (more : List Char) :
    ∃ l n, lexeme? c (tail ++ more) = some (l, n) ∧ tail.length < n := by
  obtain ⟨d, tail', hcs, hstart⟩ := h.start
  obtain ⟨rfl, rfl⟩ := List.cons.inj hcs
  have htake : (c :: (tail ++ more)).takeWhile isWordChar =
      c :: tail ++ more.takeWhile isWordChar :=
    List.takeWhile_append_of_pos h.isWordChar
  refine ⟨_, _, lexeme?_of_isWordStart hstart _, ?_⟩
  rw [htake, List.length_append, List.length_cons]
  omega

theorem exists_lexeme?_of_isMark (hl : l.isMark = true) (hchars : l.chars = c :: tail)
    (more : List Char) : ∃ l' n, lexeme? c (tail ++ more) = some (l', n) ∧ tail.length < n := by
  cases l with
  | operator op =>
    cases op with
    | lt | gt =>
      cases hchars
      simp only [lexeme?, Char.reduceEq, ↓reduceIte]
      split <;> exact ⟨_, _, rfl, by simp⟩
    | _ =>
      cases hchars
      exact ⟨_, _, rfl, by simp⟩
  | leftParen | rightParen | comma | colon =>
    cases hchars
    exact ⟨_, _, rfl, by simp⟩
  | number | text | bool | cell | name => cases hl

/-- Where characters spell a lexeme, one with as many characters is read, whatever follows. -/
theorem Spelling.exists_lexeme? (h : l.Spelling (c :: tail)) (more : List Char) :
    ∃ l' n, lexeme? c (tail ++ more) = some (l', n) ∧ tail.length < n := by
  generalize hcs : c :: tail = cs at h
  cases h with
  | whole hne hdigits =>
    subst hcs
    have hc : (c.isDigit || c == '.') = true := by
      rw [hdigits c List.mem_cons_self, Bool.true_or]
    rw [lexeme?_of_numberStart hc]
    exact exists_number?_of_digits hne hdigits more
  | pointed hne hdigits =>
    have hnumber := exists_number?_of_pointed hne hdigits more
    rw [← hcs] at hnumber
    rw [lexeme?_of_numberStart (numberStart_of_pointed hdigits hcs.symm)]
    exact hnumber
  | @text inner hinner =>
    obtain ⟨rfl, rfl⟩ := List.cons.inj hcs
    exact ⟨_, _, (spells_quoted hinner more).lexeme?_eq, Nat.lt_succ_self _⟩
  | cell hword => exact exists_lexeme?_of_isWord (hcs ▸ hword) more
  | bool hword => exact exists_lexeme?_of_isWord (hcs ▸ hword) more
  | name hword => exact exists_lexeme?_of_isWord (hcs ▸ hword) more
  | mark hl => exact exists_lexeme?_of_isMark hl hcs.symm more

end Lexeme

namespace Scan

open Lexeme

/-- At each place the longest lexeme is read that the text begins with. -/
theorem lexeme?_eq_some_iff : lexeme? c rest = some (l, n) ↔
    ∃ chars, l.Longest chars (c :: rest) ∧ n = chars.length := by
  constructor
  · intro h
    obtain ⟨chars, later, hchars, rfl, hspelling⟩ := spelling_of_lexeme? h
    refine ⟨chars, ⟨hspelling, ⟨later, hchars.symm⟩, fun l' longer hlonger hbegins => ?_⟩, rfl⟩
    obtain ⟨d, tail, rfl, -⟩ := hlonger.spells
    obtain ⟨rfl, more, rfl⟩ := List.cons_prefix_cons.mp hbegins
    -- What is read takes as many characters as any lexeme with which the text begins.
    obtain ⟨l'', n, hread, hlt⟩ := hlonger.exists_lexeme? more
    cases h.symm.trans hread
    exact hlt
  · rintro ⟨chars, ⟨hspelling, hbegins, hlongest⟩, rfl⟩
    obtain ⟨d, tail, rfl, -⟩ := hspelling.spells
    obtain ⟨rfl, more, rfl⟩ := List.cons_prefix_cons.mp hbegins
    obtain ⟨l', n, hread, hlt⟩ := hspelling.exists_lexeme? more
    obtain ⟨chars, later, hchars, rfl, hspelling'⟩ := spelling_of_lexeme? hread
    -- It is read with no fewer characters, and a longer one does not stand here.
    have hbegins' : chars <+: d :: (tail ++ more) := ⟨later, hchars.symm⟩
    have hle := hlongest l' chars hspelling' hbegins'
    have hlength : chars.length = (d :: tail).length := Nat.le_antisymm hle hlt
    have hprefix : chars <+: d :: tail := List.prefix_of_prefix_length_le hbegins' hbegins hle
    obtain rfl : chars = d :: tail := hprefix.eq_of_length hlength
    obtain rfl := hspelling.unique hspelling'
    exact hread

theorem lexeme?_eq_none_iff : lexeme? c rest = none ↔
    ∀ l chars, Spelling l chars → ¬ chars <+: c :: rest := by
  constructor
  · intro h l chars hspelling hbegins
    obtain ⟨d, tail, rfl, -⟩ := hspelling.spells
    obtain ⟨rfl, more, rfl⟩ := List.cons_prefix_cons.mp hbegins
    obtain ⟨l', n, hread, -⟩ := hspelling.exists_lexeme? more
    cases h.symm.trans hread
  · intro h
    rw [Option.eq_none_iff_forall_ne_some]
    rintro ⟨l, n⟩ hread
    obtain ⟨chars, later, hchars, -, hspelling⟩ := spelling_of_lexeme? hread
    exact h l chars hspelling ⟨later, hchars.symm⟩

end Scan

namespace Lexeme

variable {chars front rest : List Char} {l : Lexeme}

theorem Longest.spells (h : l.Longest chars (chars ++ rest)) : Spells chars l rest := by
  obtain ⟨c, tail, rfl, hblank, -⟩ := h.spelling.spells
  exact ⟨c, tail, rfl, hblank, lexeme?_eq_some_iff.mpr ⟨c :: tail, h, rfl⟩⟩

/-- A lexeme stays the longest one if the text breaks off behind it. -/
theorem Longest.of_prefix (h : l.Longest chars (chars ++ rest)) (hfront : front <+: rest) :
    l.Longest chars (chars ++ front) where
  spelling := h.spelling
  begins := List.prefix_append chars front
  length_le := fun l' longer hlonger hbegins =>
    h.length_le l' longer hlonger (hbegins.trans ((List.prefix_append_right_inj chars).mpr hfront))

end Lexeme

namespace Scan

open Lexeme

variable {c : Char} {rest : List Char}

/-- No lexeme can be read at the start of the text, which stands behind `pos` other characters: its
first character is no blank and starts no lexeme, or it is a point without a digit behind it, or a
quote without a second one. -/
inductive Unreadable (pos : Nat) : List Char → ReadError → Prop
  | foreign {c : Char} {rest : List Char} (hblank : Text.isBlank c = false)
      (hforeign : ∀ l chars, ¬ Spelling l (c :: chars)) :
      Unreadable pos (c :: rest) (.unexpectedCharacter c pos)
  | point {rest : List Char} (hdigit : ∀ c ∈ rest.head?, c.isDigit = false) :
      Unreadable pos ('.' :: rest) (.unexpectedCharacter '.' pos)
  | quote {rest : List Char} (hquote : '"' ∉ rest) :
      Unreadable pos ('"' :: rest) (.unterminatedString pos)

theorem lexeme?_eq_none_of_unreadable {pos : Nat} {e : ReadError}
    (h : Unreadable pos (c :: rest) e) :
    Text.isBlank c = false ∧ lexeme? c rest = none ∧ e = refusal c pos := by
  cases h with
  | foreign hblank hforeign =>
    have hquote : c ≠ '"' := by
      rintro rfl
      exact hforeign _ _ (.text List.not_mem_nil)
    refine ⟨hblank, lexeme?_eq_none_iff.mpr fun l chars hspelling hbegins => ?_, ?_⟩
    · obtain ⟨d, tail, rfl, -⟩ := hspelling.spells
      obtain ⟨rfl, -⟩ := List.cons_prefix_cons.mp hbegins
      exact hforeign l tail hspelling
    · rw [refusal, if_neg hquote]
  | point hdigit =>
    have htake : rest.takeWhile Char.isDigit = [] :=
      (@span_append Char.isDigit [] rest (List.forall_mem_nil _) hdigit).1
    refine ⟨rfl, ?_, rfl⟩
    rw [lexeme?_of_numberStart rfl]
    simp [number?, htake]
  | quote hquote =>
    have htake : rest.takeWhile (· != '"') = rest := by
      rw [List.takeWhile_eq_self_iff]
      intro d hd
      rw [bne_iff_ne]
      exact fun heq => hquote (heq ▸ hd)
    have hread : lexeme? '"' rest = quoted? rest := rfl
    refine ⟨rfl, ?_, rfl⟩
    rw [hread, quoted?, htake]
    exact if_neg (Nat.lt_irrefl _)

theorem unreadable_of_lexeme? (hblank : Text.isBlank c = false) (h : lexeme? c rest = none)
    (pos : Nat) : Unreadable pos (c :: rest) (refusal c pos) := by
  have hnone := lexeme?_eq_none_iff.mp h
  by_cases hquote : c = '"'
  · subst hquote
    refine .quote fun hmem => ?_
    obtain ⟨inner, later, rfl, hinner⟩ := List.eq_append_cons_of_mem hmem
    exact hnone _ _ (.text hinner) ⟨later, by simp⟩
  rw [refusal, if_neg hquote]
  by_cases hpoint : c = '.'
  · subst hpoint
    refine .point fun d hd => ?_
    rw [Bool.eq_false_iff]
    intro hdigit
    obtain ⟨later, rfl⟩ := List.head?_eq_some_iff.mp (Option.mem_def.mp hd)
    exact hnone _ _ (@Spelling.pointed [] [d] (List.cons_ne_nil d [])
      (List.forall_mem_singleton.mpr hdigit)) ⟨later, rfl⟩
  -- Otherwise nothing that follows the character makes it a lexeme.
  have hmark : c ∉ markStarts := by
    intro hmem
    obtain ⟨l, later, hl, hchars, hlater⟩ := exists_mark hmem hquote rest
    rw [lexeme?_of_mark hl hchars hlater] at h
    cases h
  have hdigit : c.isDigit = false := by
    rw [Bool.eq_false_iff]
    intro hdigit
    exact hnone _ _ (.whole (List.cons_ne_nil c []) (List.forall_mem_singleton.mpr hdigit))
      ⟨rest, rfl⟩
  have hstart : (c.isDigit || c == '.') = false := by simp [hdigit, hpoint]
  have hword : isWordStart c = false := by
    rw [Bool.eq_false_iff]
    intro hword
    rw [lexeme?_of_isWordStart hword] at h
    cases h
  refine .foreign hblank fun l chars hspelling => ?_
  obtain ⟨l', n, hread, -⟩ := hspelling.exists_lexeme? []
  rw [lexeme?_of_not_mem_markStarts hmark, hstart, hword] at hread
  cases hread

end Scan

end Recalc
