import Recalc.Formula.Reader
import Recalc.Proofs.Address.Notation

namespace Recalc

namespace Scan

/-- Where `rest` follows, the characters `cs` are read as the lexeme `l`. -/
def Spells (cs : List Char) (l : Lexeme) (rest : List Char) : Prop :=
  ∃ c tail, cs = c :: tail ∧ Text.isBlank c = false ∧
    lexeme? c (tail ++ rest) = some (l, cs.length)

theorem ofChars_nil (pos : Nat) : ofChars pos [] = ⟨[], .finished pos⟩ :=
  ofChars.eq_def pos []

theorem ofChars_cons (pos : Nat) (c : Char) (rest : List Char) :
    ofChars pos (c :: rest) =
      if Text.isBlank c then ofChars (pos + 1) rest
      else
        match lexeme? c rest with
        | none => ⟨[], .broken (refusal c pos)⟩
        | some (l, n) =>
          ⟨⟨l, pos⟩ :: (ofChars (pos + 1 + (n - 1)) (rest.drop (n - 1))).tokens,
            (ofChars (pos + 1 + (n - 1)) (rest.drop (n - 1))).stop⟩ :=
  ofChars.eq_def pos (c :: rest)

theorem ofChars_of_spells {cs rest : List Char} {l : Lexeme} (h : Spells cs l rest) (pos : Nat) :
    ofChars pos (cs ++ rest) =
      ⟨⟨l, pos⟩ :: (ofChars (pos + cs.length) rest).tokens,
        (ofChars (pos + cs.length) rest).stop⟩ := by
  obtain ⟨c, tail, rfl, hblank, hlexeme⟩ := h
  have hpos : pos + 1 + ((c :: tail).length - 1) = pos + (c :: tail).length := by
    simp only [List.length_cons]
    omega
  rw [List.cons_append, ofChars_cons, hblank, hlexeme]
  simp only [Bool.false_eq_true, ↓reduceIte, hpos]
  simp

theorem isWordChar_of_isWordStart {c : Char} (h : isWordStart c = true) : isWordChar c = true := by
  simp only [isWordStart, isWordChar, Char.isAlphanum, Bool.or_eq_true] at h ⊢
  exact h.imp_left Or.inl

theorem isWordChar_of_isDigit {c : Char} (h : c.isDigit = true) : isWordChar c = true := by
  simp [isWordChar, Char.isAlphanum, h]

theorem not_isBlank_of_isWordChar {c : Char} (h : isWordChar c = true) :
    Text.isBlank c = false := by
  simp only [isWordChar, Char.isAlphanum, Bool.or_eq_true, isAlpha_iff, isUpper_iff, isLower_iff,
    isDigit_iff, beq_iff_eq] at h
  rcases h with h | rfl
  · simp [Text.isBlank]
    omega
  · rfl

/-- The characters that start a mark or a text. -/
def markStarts : List Char := ['+', '-', '*', '/', '^', '=', '<', '>', '(', ')', ',', ':', '"']

theorem lexeme?_of_not_mem_markStarts {c : Char} (h : c ∉ markStarts) (rest : List Char) :
    lexeme? c rest =
      if c.isDigit || c == '.' then number? (c :: rest)
      else if isWordStart c then
        some (classify ((c :: rest).takeWhile isWordChar), ((c :: rest).takeWhile isWordChar).length)
      else none := by
  simp only [markStarts, List.mem_cons, List.not_mem_nil, or_false, not_or] at h
  simp only [lexeme?, h, ↓reduceIte]

theorem not_mem_markStarts {c : Char} (h : isWordChar c = true) : c ∉ markStarts := by
  have hstarts : markStarts.all (!isWordChar ·) = true := rfl
  intro hc
  have hnone := List.all_eq_true.mp hstarts c hc
  rw [h] at hnone
  cases hnone

theorem lexeme?_of_isDigit {c : Char} (h : c.isDigit = true) (rest : List Char) :
    lexeme? c rest = number? (c :: rest) := by
  rw [lexeme?_of_not_mem_markStarts (not_mem_markStarts (isWordChar_of_isDigit h)), h]
  rfl

theorem lexeme?_of_isWordStart {c : Char} (h : isWordStart c = true) (rest : List Char) :
    lexeme? c rest = some (classify ((c :: rest).takeWhile isWordChar),
      ((c :: rest).takeWhile isWordChar).length) := by
  have hnumber : (c.isDigit || c == '.') = false := by
    rw [Bool.eq_false_iff]
    intro hnumber
    rcases Bool.or_eq_true_iff.mp hnumber with hdigit | hpoint
    · rw [isWordStart, not_isAlpha_of_isDigit hdigit, Bool.false_or, beq_iff_eq] at h
      subst h
      cases hdigit
    · rw [beq_iff_eq.mp hpoint] at h
      cases h
  rw [lexeme?_of_not_mem_markStarts (not_mem_markStarts (isWordChar_of_isWordStart h)), hnumber, h]
  rfl

/-- The characters form one word. -/
structure IsWord (cs : List Char) : Prop where
  start : ∃ c tail, cs = c :: tail ∧ isWordStart c = true
  isWordChar : ∀ c ∈ cs, isWordChar c = true

theorem IsWord.spells {cs rest : List Char} (h : IsWord cs)
    (hrest : ∀ c ∈ rest.head?, Scan.isWordChar c = false) : Spells cs (classify cs) rest := by
  obtain ⟨c, tail, rfl, hc⟩ := h.start
  have hblank := not_isBlank_of_isWordChar (isWordChar_of_isWordStart hc)
  refine ⟨c, tail, rfl, hblank, ?_⟩
  rw [lexeme?_of_isWordStart hc, ← List.cons_append, (span_append h.isWordChar hrest).1]

end Scan

namespace AddressText

open Scan

theorem isWord_chars {t : AddressText} (h : t.WellFormed) : IsWord t.chars := by
  obtain ⟨colFixed, letters, rowFixed, digits⟩ := t
  obtain ⟨hletters, halpha, _, hdigit⟩ := h
  have hmark : ∀ fixed, ∀ c ∈ mark fixed, isWordChar c = true := by
    intro fixed c hc
    cases fixed with
    | true => rw [List.mem_singleton.mp hc]; rfl
    | false => cases hc
  constructor
  case start =>
    cases colFixed with
    | true => exact ⟨'$', _, rfl, rfl⟩
    | false =>
      cases letters with
      | nil => exact absurd rfl hletters
      | cons c letters =>
        have hc : c.isAlpha = true := halpha c List.mem_cons_self
        exact ⟨c, _, rfl, by simp [isWordStart, hc]⟩
  case isWordChar =>
    intro c hc
    simp only [chars, List.mem_append] at hc
    rcases hc with hc | hc | hc | hc
    · exact hmark colFixed c hc
    · have hc : c.isAlpha = true := halpha c hc
      simp [Scan.isWordChar, Char.isAlphanum, hc]
    · exact hmark rowFixed c hc
    · exact isWordChar_of_isDigit (hdigit c hc)

theorem classify_chars {t : AddressText} (h : t.WellFormed) :
    classify t.chars = .cell (String.ofList t.capital.chars) := by
  have hread : (read? (t.chars.map Char.toUpper)).isSome = true := by
    rw [← chars_capital h, read?_chars h.capital]
    rfl
  rw [classify, if_pos hread, chars_capital h]

end AddressText

namespace Expr

/-- An address is read as a formula that refers to it. -/
theorem read_of_ofText? {text : String} {r : Reference} (h : Reference.ofText? text = some r) :
    Expr.read text = .ok (.ref r) := by
  obtain ⟨t, hread, hr⟩ := Option.bind_eq_some_iff.mp h
  obtain ⟨hformed, hchars⟩ := AddressText.read?_eq_some_iff.mp hread
  have hword := AddressText.isWord_chars hformed
  have hbody : formulaBody text = text := by
    obtain ⟨c, tail, hcs, hc⟩ := hword.start
    unfold formulaBody
    split
    next cs htext =>
      -- A word does not start with an equality sign.
      rw [← hchars, hcs] at htext
      obtain ⟨rfl, _⟩ := List.cons.inj htext
      cases hc
    next => rfl
  have hdecode : Reference.decode (String.ofList t.capital.chars) = .ok r := by
    rw [Reference.decode, Reference.ofText?, String.toList_ofList,
      AddressText.read?_chars hformed.capital, Option.bind_some, AddressText.reference?_capital, hr]
  have hscan : Scan.ofText text =
      ⟨[⟨.cell (String.ofList t.capital.chars), 0⟩], .finished (0 + t.chars.length)⟩ := by
    have hspells : Scan.Spells t.chars (Scan.classify t.chars) [] := hword.spells (by simp)
    rw [Scan.ofText, ← hchars, ← List.append_nil t.chars, Scan.ofChars_of_spells hspells,
      AddressText.classify_chars hformed, Scan.ofChars_nil, List.append_nil]
  rw [Expr.read, hbody, hscan]
  simp only [Reader.ofScan, Reader.run, Reader.State.next, Reader.startOperand, hdecode]
  rfl

end Expr

end Recalc
