import Recalc.Proofs.Formula.Scanning
import Recalc.Proofs.Number.ReadBack

namespace Recalc

namespace Lexeme

/-- A lexeme of fixed characters. -/
def isMark : Lexeme → Bool
  | operator _ | leftParen | rightParen | comma | colon => true
  | _ => false

/-- Whether the character belongs to the lexeme if it stands right behind it. -/
def extendedBy (l : Lexeme) (c : Char) : Bool :=
  match l with
  | number _ => c.isDigit || c == '.'
  | bool _ | cell _ | name _ => Scan.isWordChar c
  | operator .lt => c == '>' || c == '='
  | operator .gt => c == '='
  | _ => false

/-- The lexeme that is read from the characters that are written for `l`. An infinite number is
written as a word. -/
def readBack (l : Lexeme) : Lexeme :=
  match l with
  | number x => if Number.isFinite x then l else name "INFINITY"
  | _ => l

/-- Lexemes that are read from the characters that are written for them. -/
inductive Legible (p : Float → Prop) : Lexeme → Prop
  | number {x : Float} (h : p x) : Legible p (.number x)
  | text {s : String} (h : '"' ∉ s.toList) : Legible p (.text s)
  | word {l : Lexeme} (hword : Scan.IsWord l.chars) (hl : Scan.classify l.chars = l) : Legible p l
  | mark {l : Lexeme} (h : l.isMark = true) : Legible p l

end Lexeme

/-- Digits can be written for the number: it is finite, and neither negative nor a negative zero. -/
def Number.Unsigned (x : Float) : Prop := isFinite x = true ∧ isNegative x = false

/-- Digits may be read as the number. -/
def Number.UnsignedOrInfinite (x : Float) : Prop :=
  (isFinite x = true ∨ x = 1 / 0) ∧ isNegative x = false

namespace Scan

variable {rest : List Char}

theorem spells_mark {l : Lexeme} (h : l.isMark = true)
    (hrest : ∀ c ∈ rest.head?, l.extendedBy c = false) : Spells l.chars l rest := by
  cases l with
  | operator op =>
    cases op with
    | lt =>
      have hlexeme : lexeme? '<' rest = some (.operator .lt, 1) := by
        simp only [lexeme?, Char.reduceEq, ↓reduceIte]
        split
        next => cases hrest '>' rfl
        next => cases hrest '=' rfl
        next => rfl
      exact ⟨'<', [], rfl, rfl, hlexeme⟩
    | gt =>
      have hlexeme : lexeme? '>' rest = some (.operator .gt, 1) := by
        simp only [lexeme?, Char.reduceEq, ↓reduceIte]
        split
        next => cases hrest '=' rfl
        next => rfl
      exact ⟨'>', [], rfl, rfl, hlexeme⟩
    | _ => exact ⟨_, _, rfl, rfl, rfl⟩
  | leftParen | rightParen | comma | colon => exact ⟨_, _, rfl, rfl, rfl⟩
  | number | text | bool | cell | name => cases h

theorem spells_text {s : String} (h : '"' ∉ s.toList) :
    Spells (Lexeme.text s).chars (.text s) rest := by
  have hplain : ∀ c ∈ s.toList, (c != '"') = true := by
    intro c hc
    rw [bne_iff_ne]
    rintro rfl
    exact h hc
  have hend : ∀ c ∈ ('"' :: rest).head?, (c != '"') = false := by
    rintro c ⟨⟩
    rfl
  have hinner : (s.toList ++ ['"'] ++ rest).takeWhile (· != '"') = s.toList := by
    rw [List.append_assoc]
    exact (span_append hplain hend).1
  refine ⟨'"', s.toList ++ ['"'], rfl, rfl, ?_⟩
  have hlexeme : lexeme? '"' (s.toList ++ ['"'] ++ rest) = quoted? (s.toList ++ ['"'] ++ rest) := rfl
  rw [hlexeme, quoted?, hinner, if_pos (by simp), String.ofList_toList]
  simp [Lexeme.chars]

theorem spells_quoted {inner : List Char} (hinner : '"' ∉ inner) (rest : List Char) :
    Spells ('"' :: (inner ++ ['"'])) (.text (String.ofList inner)) rest := by
  have hquote : '"' ∉ (String.ofList inner).toList := by rwa [String.toList_ofList]
  have hspells : Spells _ _ rest := spells_text hquote
  simp only [Lexeme.chars, String.toList_ofList] at hspells
  exact hspells

theorem spells_pointed {whole part : List Char} (h : Decimal.Pointed whole part)
    (hrest : ∀ c ∈ rest.head?, c.isDigit = false ∧ c ≠ '.') :
    Spells (Decimal.pointed whole part)
      (.number (Decimal.magnitude (Decimal.ofDigits (whole ++ part)) (-part.length))) rest := by
  have hnumber := h.number?_eq hrest
  obtain ⟨c, digits, rfl⟩ := List.exists_cons_of_ne_nil h.whole_ne_nil
  have hdigit : c.isDigit = true := h.isDigit_whole c List.mem_cons_self
  refine ⟨c, _, rfl, not_isBlank_of_isWordChar (isWordChar_of_isDigit hdigit), ?_⟩
  rw [lexeme?_of_isDigit hdigit]
  exact hnumber

theorem spells_number {x : Float} (h : Number.Unsigned x)
    (hrest : ∀ c ∈ rest.head?, (Lexeme.number x).extendedBy c = false) :
    Spells (Lexeme.number x).chars (.number x) rest := by
  obtain ⟨whole, part, hpointed, htext, hvalue⟩ := Number.canonical_eq h.1 h.2
  have hend : ∀ c ∈ rest.head?, c.isDigit = false ∧ c ≠ '.' := by
    intro c hc
    simpa [Lexeme.extendedBy] using hrest c hc
  have hchars : (Lexeme.number x).chars = Decimal.pointed whole part := htext
  have hspells := spells_pointed hpointed hend
  rwa [hvalue, ← hchars] at hspells

theorem chars_infinity : (Lexeme.number (1 / 0)).chars = "Infinity".toList := by
  rfl

theorem spells_infinity (hrest : ∀ c ∈ rest.head?, isWordChar c = false) :
    Spells (Lexeme.number (1 / 0)).chars (.name "INFINITY") rest := by
  have hword : IsWord "Infinity".toList := ⟨⟨'I', _, rfl, rfl⟩, List.all_eq_true.mp rfl⟩
  rw [chars_infinity]
  exact hword.spells hrest

/-- A word is written in capitals. -/
theorem chars_classify (word : List Char) : (classify word).chars = word.map Char.toUpper := by
  simp only [classify]
  split
  next => exact String.toList_ofList
  next =>
    split
    next h => exact h.symm
    next =>
      split
      next h => exact h.symm
      next => exact String.toList_ofList

theorem extendedBy_classify (word : List Char) : (classify word).extendedBy = isWordChar := by
  simp only [classify]
  split
  next => rfl
  next =>
    split
    next => rfl
    next => split <;> rfl

theorem classify_capitals (word : List Char) :
    classify (word.map Char.toUpper) = classify word := by
  have hcapitals : (word.map Char.toUpper).map Char.toUpper = word.map Char.toUpper := by
    simp [toUpper_toUpper]
  simp only [classify, hcapitals]

theorem isWordStart_toUpper {c : Char} (h : isWordStart c = true) :
    isWordStart c.toUpper = true := by
  rcases Bool.or_eq_true_iff.mp h with halpha | hmark
  · rw [isWordStart, isAlpha_toUpper, halpha]
    rfl
  · rw [beq_iff_eq.mp hmark]
    rfl

theorem isWordChar_toUpper {c : Char} (h : isWordChar c = true) : isWordChar c.toUpper = true := by
  by_cases hdigit : c.isDigit = true
  · rwa [toUpper_of_isDigit hdigit]
  · refine isWordChar_of_isWordStart (isWordStart_toUpper ?_)
    simpa [isWordChar, isWordStart, Char.isAlphanum, hdigit] using h

theorem IsWord.capitals {word : List Char} (h : IsWord word) : IsWord (word.map Char.toUpper) := by
  obtain ⟨⟨c, tail, rfl, hc⟩, hchars⟩ := h
  refine ⟨⟨c.toUpper, tail.map Char.toUpper, rfl, isWordStart_toUpper hc⟩, ?_⟩
  intro d hd
  obtain ⟨b, hb, rfl⟩ := List.mem_map.mp hd
  exact isWordChar_toUpper (hchars b hb)

end Scan

namespace Lexeme

variable {p : Float → Prop} {l : Lexeme} {rest : List Char}

theorem readBack_classify (word : List Char) :
    (Scan.classify word).readBack = Scan.classify word := by
  simp only [Scan.classify]
  split
  next => rfl
  next =>
    split
    next => rfl
    next => split <;> rfl

theorem readBack_of_isMark (h : l.isMark = true) : l.readBack = l := by
  cases l with
  | number => cases h
  | _ => rfl

theorem Legible.readBack_eq (h : l.Legible Number.Unsigned) : l.readBack = l := by
  cases h with
  | number h => exact if_pos h.1
  | text h => rfl
  | word _ hl => rw [← hl, readBack_classify]
  | mark h => exact readBack_of_isMark h

theorem Legible.imp {q : Float → Prop} (h : l.Legible p) (hpq : ∀ x, p x → q x) : l.Legible q := by
  cases h with
  | number h => exact .number (hpq _ h)
  | text h => exact .text h
  | word hword hl => exact .word hword hl
  | mark h => exact .mark h

/-- A legible lexeme is read from its characters, if nothing follows that extends it. -/
theorem Legible.spells (h : l.Legible Number.UnsignedOrInfinite)
    (hrest : ∀ c ∈ rest.head?, l.readBack.extendedBy c = false) :
    Scan.Spells l.chars l.readBack rest := by
  cases h with
  | number h =>
    obtain ⟨hfinite | rfl, hsign⟩ := h
    · rw [readBack, if_pos hfinite] at hrest ⊢
      exact Scan.spells_number ⟨hfinite, hsign⟩ hrest
    · exact Scan.spells_infinity hrest
  | text h => exact Scan.spells_text h
  | word hword hl =>
    rw [← hl, readBack_classify, Scan.extendedBy_classify] at hrest
    have hspells := hword.spells hrest
    rwa [← readBack_classify, hl] at hspells
  | mark h =>
    rw [readBack_of_isMark h] at hrest ⊢
    exact Scan.spells_mark h hrest

/-- A word is legible in capitals, as which it is read. -/
theorem legible_classify {word : List Char} (h : Scan.IsWord word) :
    (Scan.classify word).Legible p := by
  refine .word ?_ ?_
  · rw [Scan.chars_classify]
    exact h.capitals
  · rw [Scan.chars_classify, Scan.classify_capitals]

end Lexeme

namespace Scan

theorem isWord_takeWhile {c : Char} (h : isWordStart c = true) (rest : List Char) :
    IsWord ((c :: rest).takeWhile isWordChar) := by
  refine ⟨⟨c, rest.takeWhile isWordChar, ?_, h⟩, fun d hd => List.mem_takeWhile_imp hd⟩
  rw [List.takeWhile_cons, if_pos (isWordChar_of_isWordStart h)]

theorem not_of_mem_head?_dropWhile (p : Char → Bool) (cs : List Char) :
    ∀ c ∈ (cs.dropWhile p).head?, p c = false := by
  intro c hc
  have hhead := List.head?_dropWhile_not p cs
  rwa [Option.mem_def.mp hc] at hhead

/-- A number is made of digits, or of digits around a point, and what follows does not go on with
it. -/
theorem number?_cases {cs : List Char} {l : Lexeme} {n : Nat} (h : number? cs = some (l, n)) :
    (∃ digits later, cs = digits ++ later ∧ (∀ c ∈ digits, c.isDigit = true) ∧
      (∀ c ∈ later.head?, c.isDigit = false ∧ c ≠ '.') ∧
      l = .number (Decimal.mk false (Decimal.ofDigits digits) 0).toFloat ∧ n = digits.length) ∨
    ∃ whole part later, cs = whole ++ '.' :: part ++ later ∧
      (whole.isEmpty && part.isEmpty) = false ∧ (∀ c ∈ whole ++ part, c.isDigit = true) ∧
      (∀ c ∈ later.head?, c.isDigit = false) ∧
      l = .number (Decimal.mk false (Decimal.ofDigits (whole ++ part)) (-part.length)).toFloat ∧
      n = (whole ++ '.' :: part).length := by
  have hsplit : cs.takeWhile Char.isDigit ++ cs.dropWhile Char.isDigit = cs :=
    List.takeWhile_append_dropWhile
  have hwhole : ∀ c ∈ cs.takeWhile Char.isDigit, c.isDigit = true :=
    fun c hc => List.mem_takeWhile_imp hc
  have hend := not_of_mem_head?_dropWhile Char.isDigit cs
  simp only [number?] at h
  split at h
  next part hpart =>
    have hlast : ∀ c ∈ part.takeWhile Char.isDigit, c.isDigit = true :=
      fun c hc => List.mem_takeWhile_imp hc
    split at h
    next => cases h
    next hne =>
      cases h
      refine Or.inr ⟨_, _, part.dropWhile Char.isDigit, ?_, Bool.eq_false_iff.mpr hne,
        List.forall_mem_append.mpr ⟨hwhole, hlast⟩, not_of_mem_head?_dropWhile _ part, rfl, ?_⟩
      · rw [List.append_assoc, List.cons_append, List.takeWhile_append_dropWhile, ← hpart, hsplit]
      · rw [List.length_append, List.length_cons]
        omega
  next hnone =>
    cases h
    refine Or.inl ⟨_, _, hsplit.symm, hwhole, fun c hc => ⟨hend c hc, ?_⟩, rfl, rfl⟩
    rintro rfl
    obtain ⟨part, hpart⟩ := List.head?_eq_some_iff.mp (Option.mem_def.mp hc)
    exact hnone part hpart

theorem legible_number? {cs : List Char} {l : Lexeme} {n : Nat} (h : number? cs = some (l, n)) :
    l.Legible Number.UnsignedOrInfinite := by
  have hmagnitude : ∀ digits exponent, Lexeme.Legible Number.UnsignedOrInfinite
      (.number (Decimal.mk false digits exponent).toFloat) := fun digits exponent =>
    .number (Number.isFinite_or_eq_infinity (Decimal.nonnegative_magnitude digits exponent))
  rcases number?_cases h with ⟨_, _, _, _, _, rfl, _⟩ | ⟨_, _, _, _, _, _, _, rfl, _⟩
  · exact hmagnitude _ _
  · exact hmagnitude _ _

/-- A text goes to the first quote. -/
theorem quoted?_cases {rest : List Char} {l : Lexeme} {n : Nat} (h : quoted? rest = some (l, n)) :
    ∃ inner later, rest = inner ++ '"' :: later ∧ '"' ∉ inner ∧ l = .text (String.ofList inner) ∧
      n = inner.length + 2 := by
  have hsplit : rest.takeWhile (· != '"') ++ rest.dropWhile (· != '"') = rest :=
    List.takeWhile_append_dropWhile
  simp only [quoted?] at h
  split at h
  next hlt =>
    cases h
    obtain ⟨d, later, hdrop⟩ : ∃ d later, rest.dropWhile (· != '"') = d :: later := by
      refine List.exists_cons_of_ne_nil fun hnil => ?_
      rw [hnil, List.append_nil] at hsplit
      rw [hsplit] at hlt
      exact Nat.lt_irrefl _ hlt
    have hd := not_of_mem_head?_dropWhile (· != '"') rest d (by rw [hdrop]; rfl)
    obtain rfl : d = '"' := by simpa using hd
    refine ⟨_, later, by rw [← hdrop, hsplit], fun hquote => ?_, rfl, rfl⟩
    have hne : ('"' != '"') = true := List.mem_takeWhile_imp (p := (· != '"')) hquote
    cases hne
  next => cases h

theorem legible_quoted? {p : Float → Prop} {cs : List Char} {l : Lexeme} {n : Nat}
    (h : quoted? cs = some (l, n)) : l.Legible p := by
  obtain ⟨inner, _, _, hinner, rfl, _⟩ := quoted?_cases h
  exact .text (by rwa [String.toList_ofList])

/-- A mark at the start of a text, with what stands behind it and does not go on with it. -/
theorem exists_mark {c : Char} (hc : c ∈ markStarts) (hquote : c ≠ '"') (rest : List Char) :
    ∃ (l : Lexeme) (later : List Char), l.isMark = true ∧ c :: rest = l.chars ++ later ∧
      ∀ d ∈ later.head?, l.extendedBy d = false := by
  by_cases hlt : c = '<'
  · subst hlt
    by_cases hne : rest.head? = some '>'
    · obtain ⟨later, rfl⟩ := List.head?_eq_some_iff.mp hne
      exact ⟨.operator .ne, later, rfl, rfl, fun _ _ => rfl⟩
    by_cases hle : rest.head? = some '='
    · obtain ⟨later, rfl⟩ := List.head?_eq_some_iff.mp hle
      exact ⟨.operator .le, later, rfl, rfl, fun _ _ => rfl⟩
    refine ⟨.operator .lt, rest, rfl, rfl, fun d hd => ?_⟩
    have hhead := Option.mem_def.mp hd
    have hgreater : d ≠ '>' := fun h => hne (h ▸ hhead)
    have hequal : d ≠ '=' := fun h => hle (h ▸ hhead)
    simp [Lexeme.extendedBy, hgreater, hequal]
  by_cases hgt : c = '>'
  · subst hgt
    by_cases hge : rest.head? = some '='
    · obtain ⟨later, rfl⟩ := List.head?_eq_some_iff.mp hge
      exact ⟨.operator .ge, later, rfl, rfl, fun _ _ => rfl⟩
    refine ⟨.operator .gt, rest, rfl, rfl, fun d hd => ?_⟩
    have hequal : d ≠ '=' := fun h => hge (h ▸ Option.mem_def.mp hd)
    simp [Lexeme.extendedBy, hequal]
  simp only [markStarts, List.mem_cons, List.not_mem_nil, hquote, hlt, hgt, or_false, false_or] at hc
  rcases hc with rfl | rfl | rfl | rfl | rfl | rfl | rfl | rfl | rfl | rfl
  exacts [⟨.operator .add, rest, rfl, rfl, fun _ _ => rfl⟩,
    ⟨.operator .sub, rest, rfl, rfl, fun _ _ => rfl⟩,
    ⟨.operator .mul, rest, rfl, rfl, fun _ _ => rfl⟩,
    ⟨.operator .div, rest, rfl, rfl, fun _ _ => rfl⟩,
    ⟨.operator .pow, rest, rfl, rfl, fun _ _ => rfl⟩,
    ⟨.operator .eq, rest, rfl, rfl, fun _ _ => rfl⟩,
    ⟨.leftParen, rest, rfl, rfl, fun _ _ => rfl⟩,
    ⟨.rightParen, rest, rfl, rfl, fun _ _ => rfl⟩,
    ⟨.comma, rest, rfl, rfl, fun _ _ => rfl⟩,
    ⟨.colon, rest, rfl, rfl, fun _ _ => rfl⟩]

theorem lexeme?_of_mark {c : Char} {rest later : List Char} {l : Lexeme} (hl : l.isMark = true)
    (hchars : c :: rest = l.chars ++ later) (hlater : ∀ d ∈ later.head?, l.extendedBy d = false) :
    lexeme? c rest = some (l, l.chars.length) := by
  obtain ⟨d, tail, hd, -, hread⟩ := spells_mark hl hlater
  rw [hd, List.cons_append] at hchars
  obtain ⟨rfl, rfl⟩ := List.cons.inj hchars
  exact hread

theorem legible_of_mem_markStarts {p : Float → Prop} {c : Char} {rest : List Char} {l : Lexeme}
    {n : Nat} (hc : c ∈ markStarts) (h : lexeme? c rest = some (l, n)) : l.Legible p := by
  by_cases hquote : c = '"'
  · subst hquote
    exact legible_quoted? h
  obtain ⟨mark, later, hmark, hchars, hlater⟩ := exists_mark hc hquote rest
  rw [lexeme?_of_mark hmark hchars hlater] at h
  cases h
  exact .mark hmark

theorem legible_lexeme? {c : Char} {rest : List Char} {l : Lexeme} {n : Nat}
    (h : lexeme? c rest = some (l, n)) : l.Legible Number.UnsignedOrInfinite := by
  by_cases hc : c ∈ markStarts
  · exact legible_of_mem_markStarts hc h
  · rw [lexeme?_of_not_mem_markStarts hc] at h
    split at h
    next => exact legible_number? h
    next =>
      split at h
      next hword =>
        cases h
        exact Lexeme.legible_classify (isWord_takeWhile hword rest)
      next => cases h

/-- Every lexeme that is read from a text is legible, but that digits may be too many. -/
theorem legible_ofChars (pos : Nat) (cs : List Char) :
    ∀ t ∈ (ofChars pos cs).tokens, t.lexeme.Legible Number.UnsignedOrInfinite := by
  induction hlength : cs.length using Nat.strongRecOn generalizing pos cs with
  | ind length ih =>
    cases cs with
    | nil =>
      rw [ofChars_nil]
      intro t ht
      cases ht
    | cons c rest =>
      rw [ofChars_cons]
      split
      next => exact ih rest.length (by simp [← hlength]) (pos + 1) rest rfl
      next =>
        split
        next =>
          intro t ht
          cases ht
        next l n hl =>
          have hlater := ih (rest.drop (n - 1)).length
            (by simp only [← hlength, List.length_cons, List.length_drop]; omega)
            (pos + 1 + (n - 1)) (rest.drop (n - 1)) rfl
          intro t ht
          rcases List.mem_cons.mp ht with rfl | ht
          · exact legible_lexeme? hl
          · exact hlater t ht

end Scan

end Recalc
