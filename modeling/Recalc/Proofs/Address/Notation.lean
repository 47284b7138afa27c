import Recalc.Error

namespace Recalc

theorem isUpper_iff {c : Char} : c.isUpper = true ↔ 65 ≤ c.toNat ∧ c.toNat ≤ 90 :=
  decide_eq_true_iff

theorem isLower_iff {c : Char} : c.isLower = true ↔ 97 ≤ c.toNat ∧ c.toNat ≤ 122 :=
  Bool.and_eq_true_iff.trans (and_congr decide_eq_true_iff decide_eq_true_iff)

theorem isDigit_iff {c : Char} : c.isDigit = true ↔ 48 ≤ c.toNat ∧ c.toNat ≤ 57 :=
  Bool.and_eq_true_iff.trans (and_congr decide_eq_true_iff decide_eq_true_iff)

theorem isAlpha_iff {c : Char} : c.isAlpha = true ↔ c.isUpper = true ∨ c.isLower = true :=
  Bool.or_eq_true_iff

theorem toUpper_of_not_isLower {c : Char} (h : c.isLower = false) : c.toUpper = c := by
  have hcode : ¬ (97 ≤ c.toNat ∧ c.toNat ≤ 122) := by
    rw [← isLower_iff, h]
    exact Bool.false_ne_true
  exact dif_neg hcode

theorem toUpper_of_not_isAlpha {c : Char} (h : c.isAlpha = false) : c.toUpper = c :=
  toUpper_of_not_isLower (Bool.or_eq_false_iff.mp h).2

/-- A small letter stands 32 places behind its capital. -/
theorem toNat_toUpper_of_isLower {c : Char} (h : c.isLower = true) :
    c.toUpper.toNat + 32 = c.toNat := by
  have hrange := isLower_iff.mp h
  obtain ⟨hvalid, hupper⟩ : ∃ hvalid, c.toUpper = ⟨c.val + ('A'.val - 'a'.val), hvalid⟩ :=
    ⟨_, dif_pos hrange⟩
  have hcode : c.toUpper.toNat = (c.toNat + (2 ^ 32 - 32)) % 2 ^ 32 := by
    rw [hupper]
    exact UInt32.toNat_add _ _
  omega

theorem toUpper_of_isUpper {c : Char} (h : c.isUpper = true) : c.toUpper = c := by
  have hrange := isUpper_iff.mp h
  refine toUpper_of_not_isLower ?_
  rw [Bool.eq_false_iff, ne_eq, isLower_iff]
  omega

theorem isUpper_toUpper (c : Char) : c.toUpper.isUpper = c.isAlpha := by
  rw [Bool.eq_iff_iff, isAlpha_iff]
  cases hlower : c.isLower with
  | false =>
    rw [toUpper_of_not_isLower hlower]
    simp
  | true =>
    have hcode := toNat_toUpper_of_isLower hlower
    have hrange := isLower_iff.mp hlower
    have hupper : c.toUpper.isUpper = true := isUpper_iff.mpr (by omega)
    rw [hupper]
    simp

theorem isAlpha_toUpper (c : Char) : c.toUpper.isAlpha = c.isAlpha := by
  cases halpha : c.isAlpha with
  | true => exact isAlpha_iff.mpr (Or.inl ((isUpper_toUpper c).trans halpha))
  | false => rw [toUpper_of_not_isAlpha halpha, halpha]

theorem toUpper_toUpper (c : Char) : c.toUpper.toUpper = c.toUpper := by
  cases halpha : c.isAlpha with
  | true => exact toUpper_of_isUpper ((isUpper_toUpper c).trans halpha)
  | false => rw [toUpper_of_not_isAlpha halpha, toUpper_of_not_isAlpha halpha]

namespace Column

theorem toNat_letter {d : Nat} (hd : d < 26) : (letter d).toNat = 'A'.toNat + d := by
  revert d
  decide

theorem isUpper_letter {d : Nat} (hd : d < 26) : (letter d).isUpper = true := by
  have hfirst : 'A'.toNat = 65 := rfl
  rw [isUpper_iff, toNat_letter hd]
  omega

theorem isUpper_of_mem_spell {n : Nat} {c : Char} (h : c ∈ spell n) : c.isUpper = true := by
  induction n using Nat.strongRecOn with
  | ind n ih =>
    rw [spell] at h
    split at h
    · simp at h
    · rcases List.mem_append.mp h with hinit | hlast
      · exact ih _ (by omega) hinit
      · rw [List.mem_singleton.mp hlast]
        exact isUpper_letter (by omega)

theorem spell_ne_nil {n : Nat} (h : 0 < n) : spell n ≠ [] := by
  rw [spell, dif_neg (by omega)]
  simp

theorem value_snoc (cs : List Char) (c : Char) :
    value (cs ++ [c]) = 26 * value cs + (c.toUpper.toNat - 'A'.toNat + 1) := by
  simp [value]

theorem value_spell (n : Nat) : value (spell n) = n := by
  induction n using Nat.strongRecOn with
  | ind n ih =>
    rw [spell]
    split
    next h => simp [value, h]
    next h =>
      have hdigit : (n - 1) % 26 < 26 := Nat.mod_lt _ (by omega)
      have hupper : (letter ((n - 1) % 26)).toUpper = letter ((n - 1) % 26) :=
        toUpper_of_isUpper (isUpper_letter hdigit)
      rw [value_snoc, ih _ (by omega), hupper, toNat_letter hdigit]
      omega

theorem map_toUpper_spell (n : Nat) : (spell n).map Char.toUpper = spell n := by
  refine (List.map_congr_left fun c hc => ?_).trans (List.map_id _)
  exact toUpper_of_isUpper (isUpper_of_mem_spell hc)

theorem value_map_toUpper (cs : List Char) : value (cs.map Char.toUpper) = value cs := by
  simp [value, List.foldl_map, toUpper_toUpper]

theorem ofLetters?_map_toUpper (cs : List Char) :
    ofLetters? (cs.map Char.toUpper) = ofLetters? cs := by
  have hall : (cs.map Char.toUpper).all Char.isAlpha = cs.all Char.isAlpha := by
    simp [Function.comp_def, isAlpha_toUpper]
  rw [ofLetters?, ofLetters?, value_map_toUpper, hall, List.isEmpty_map]

theorem ofLetters?_spell {col : Nat} (h : col < Address.limit) :
    ofLetters? (spell (col + 1)) = some col := by
  have halpha : (spell (col + 1)).all Char.isAlpha = true := by
    rw [List.all_eq_true]
    intro c hc
    exact isAlpha_iff.mpr (Or.inl (isUpper_of_mem_spell hc))
  have hne : (spell (col + 1)).isEmpty = false := by simpa using spell_ne_nil (Nat.succ_pos col)
  rw [ofLetters?, value_spell, halpha, hne, if_neg (by simp; omega)]
  simp

end Column

namespace Decimal

theorem isDigit_of_mem_spell {n : Nat} {c : Char} (h : c ∈ spell n) : c.isDigit = true :=
  Nat.isDigit_of_mem_toDigits (by decide) (by decide) h

theorem spell_ne_nil (n : Nat) : spell n ≠ [] := Nat.toDigits_ne_nil

theorem ofDigits_eq (cs : List Char) : ofDigits cs = Nat.ofDigitChars 10 cs 0 := rfl

theorem ofDigits_spell (n : Nat) : ofDigits (spell n) = n := by
  rw [ofDigits_eq, spell, Nat.ofDigitChars_ten_toDigits]

end Decimal

theorem not_isAlpha_of_isDigit {c : Char} (h : c.isDigit = true) : c.isAlpha = false := by
  have hrange := isDigit_iff.mp h
  rw [Bool.eq_false_iff, ne_eq, isAlpha_iff, isUpper_iff, isLower_iff]
  omega

theorem toUpper_of_isDigit {c : Char} (h : c.isDigit = true) : c.toUpper = c :=
  toUpper_of_not_isAlpha (not_isAlpha_of_isDigit h)

/-- A list is cut where its first part ends, if that part satisfies `p` and what follows does not. -/
theorem span_append {p : Char → Bool} {cs rest : List Char} (h : ∀ c ∈ cs, p c = true)
    (hrest : ∀ c ∈ rest.head?, p c = false) :
    (cs ++ rest).takeWhile p = cs ∧ (cs ++ rest).dropWhile p = rest := by
  rw [List.takeWhile_append_of_pos h, List.dropWhile_append_of_pos h]
  cases rest with
  | nil => simp
  | cons c rest =>
    have hc : p c = false := hrest c rfl
    simp [hc]

namespace AddressText

def mark (fixed : Bool) : List Char := if fixed then ['$'] else []

/-- The text that has these parts. -/
def chars (t : AddressText) : List Char :=
  mark t.colFixed ++ (t.letters ++ (mark t.rowFixed ++ t.digits))

/-- There are letters and there are digits. -/
structure WellFormed (t : AddressText) : Prop where
  letters_ne_nil : t.letters ≠ []
  isAlpha_letters : ∀ c ∈ t.letters, c.isAlpha = true
  digits_ne_nil : t.digits ≠ []
  isDigit_digits : ∀ c ∈ t.digits, c.isDigit = true

theorem mark_splitMark (cs : List Char) : mark (splitMark cs).1 ++ (splitMark cs).2 = cs := by
  unfold splitMark
  split <;> rfl

theorem splitMark_mark {cs : List Char} (fixed : Bool) (h : '$' ∉ cs.head?) :
    splitMark (mark fixed ++ cs) = (fixed, cs) := by
  cases fixed with
  | true => rfl
  | false =>
    change splitMark cs = _
    unfold splitMark
    split
    next => simp at h
    next => rfl

theorem read?_chars {t : AddressText} (h : t.WellFormed) : read? t.chars = some t := by
  obtain ⟨colFixed, letters, rowFixed, digits⟩ := t
  obtain ⟨hletters, halpha, hdigits, hdigit⟩ := h
  have hnoMark : '$' ∉ (letters ++ (mark rowFixed ++ digits)).head? := by
    cases letters with
    | nil => exact absurd rfl hletters
    | cons c letters =>
      rintro ⟨⟩
      exact absurd (halpha '$' List.mem_cons_self) (by decide)
  have hdigitHead : ∀ c ∈ digits.head?, c.isDigit = true :=
    fun c hc => hdigit c (List.mem_of_mem_head? hc)
  have hnoMark' : '$' ∉ digits.head? := fun hc => absurd (hdigitHead _ hc) (by decide)
  have hend : ∀ c ∈ (mark rowFixed ++ digits).head?, c.isAlpha = false := by
    cases rowFixed with
    | true =>
      rintro c ⟨⟩
      rfl
    | false => exact fun c hc => not_isAlpha_of_isDigit (hdigitHead c hc)
  obtain ⟨htake, hdrop⟩ := span_append halpha hend
  have hne : letters.isEmpty = false ∧ digits.isEmpty = false := by simp [hletters, hdigits]
  have hall : digits.all Char.isDigit = true := List.all_eq_true.mpr hdigit
  simp only [read?, chars, splitMark_mark colFixed hnoMark, htake, hdrop,
    splitMark_mark rowFixed hnoMark', hne, hall]
  rfl

theorem chars_of_read? {cs : List Char} {t : AddressText} (h : read? cs = some t) :
    t.WellFormed ∧ t.chars = cs := by
  have hcol := mark_splitMark cs
  have hrow := mark_splitMark ((splitMark cs).2.dropWhile Char.isAlpha)
  simp only [read?] at h
  split at h
  next => cases h
  next hparts =>
    obtain rfl := Option.some.inj h
    simp only [Bool.or_eq_true, not_or, List.isEmpty_iff, Bool.not_eq_true',
      Bool.not_eq_false, List.all_eq_true] at hparts
    obtain ⟨⟨hletters, hdigits⟩, hdigit⟩ := hparts
    have halpha := List.all_eq_true.mp (List.all_takeWhile (p := Char.isAlpha) (l := (splitMark cs).2))
    refine ⟨⟨hletters, halpha, hdigits, hdigit⟩, ?_⟩
    rw [chars]
    dsimp only
    rw [hrow, List.takeWhile_append_dropWhile, hcol]

/-- A text is read as an address exactly if it is one, and the parts that are read make it up. -/
theorem read?_eq_some_iff {cs : List Char} {t : AddressText} :
    read? cs = some t ↔ t.WellFormed ∧ t.chars = cs := by
  refine ⟨chars_of_read?, ?_⟩
  rintro ⟨hformed, rfl⟩
  exact read?_chars hformed

/-- The same address in capitals. -/
def capital (t : AddressText) : AddressText := { t with letters := t.letters.map Char.toUpper }

theorem WellFormed.capital {t : AddressText} (h : t.WellFormed) : t.capital.WellFormed := by
  refine ⟨?_, ?_, h.digits_ne_nil, h.isDigit_digits⟩
  · simpa [AddressText.capital] using h.letters_ne_nil
  · intro c hc
    obtain ⟨x, hx, rfl⟩ := List.mem_map.mp hc
    rw [isAlpha_toUpper]
    exact h.isAlpha_letters x hx

theorem chars_capital {t : AddressText} (h : t.WellFormed) :
    t.capital.chars = t.chars.map Char.toUpper := by
  have hmark : ∀ fixed, (mark fixed).map Char.toUpper = mark fixed := by decide
  have hdigits : t.digits.map Char.toUpper = t.digits := by
    refine (List.map_congr_left fun c hc => ?_).trans (List.map_id _)
    exact toUpper_of_isDigit (h.isDigit_digits c hc)
  simp only [chars, AddressText.capital, List.map_append, hmark, hdigits]

theorem reference?_capital (t : AddressText) : t.capital.reference? = t.reference? := by
  rw [reference?, AddressText.capital, Column.ofLetters?_map_toUpper]
  rfl

end AddressText

namespace Reference

/-- The parts of a written reference. -/
def parts (r : Reference) : AddressText :=
  ⟨r.anchor.col, Column.spell (r.address.col + 1), r.anchor.row, Decimal.spell (r.address.row + 1)⟩

theorem wellFormed_parts (r : Reference) : r.parts.WellFormed where
  letters_ne_nil := Column.spell_ne_nil (Nat.succ_pos _)
  isAlpha_letters := fun _ hc => isAlpha_iff.mpr (Or.inl (Column.isUpper_of_mem_spell hc))
  digits_ne_nil := Decimal.spell_ne_nil _
  isDigit_digits := fun _ hc => Decimal.isDigit_of_mem_spell hc

theorem chars_parts (r : Reference) : r.parts.chars = r.chars := by
  rw [AddressText.chars, chars, List.append_assoc, List.append_assoc]
  rfl

theorem reference?_parts {r : Reference} (hcol : r.address.col < Address.limit)
    (hrow : r.address.row < Address.limit) : r.parts.reference? = some r := by
  have hrange : ¬ (r.address.row + 1 = 0 ∨ Address.limit < r.address.row + 1) := by omega
  simp only [AddressText.reference?, parts, Column.ofLetters?_spell hcol, Decimal.ofDigits_spell,
    if_neg hrange, Nat.add_sub_cancel]

/-- A reference is read back as it was, with its marks. -/
theorem ofText?_text {r : Reference} (hcol : r.address.col < Address.limit)
    (hrow : r.address.row < Address.limit) : ofText? r.text = some r := by
  rw [ofText?, text, String.toList_ofList, ← chars_parts, AddressText.read?_chars r.wellFormed_parts]
  exact reference?_parts hcol hrow

end Reference

end Recalc
