import Mathlib.Data.List.Basic
import Mathlib.Data.List.Induction
import Mathlib.Data.Set.Function
import Recalc.Proofs.Address.Notation

namespace Recalc

namespace Column

variable {cs : List Char} {c : Char} {n : Nat}

theorem toNat_toUpper_of_isAlpha (h : c.isAlpha = true) :
    'A'.toNat ≤ c.toUpper.toNat ∧ c.toUpper.toNat < 'A'.toNat + 26 := by
  have hrange := isUpper_iff.mp ((isUpper_toUpper c).trans h)
  have hfirst : 'A'.toNat = 65 := rfl
  omega

theorem letter_toUpper (h : c.isAlpha = true) : letter (c.toUpper.toNat - 'A'.toNat) = c.toUpper := by
  have hrange := toNat_toUpper_of_isAlpha h
  have hcode : 'A'.toNat + (c.toUpper.toNat - 'A'.toNat) = c.toUpper.toNat := by omega
  rw [letter, hcode, Char.ofNat_toNat]

/-- Letters are determined by their number, up to their case. -/
theorem spell_value (h : ∀ c ∈ cs, c.isAlpha = true) : spell (value cs) = cs.map Char.toUpper := by
  induction cs using List.reverseRecOn with
  | nil =>
    rw [spell]
    rfl
  | append_singleton init c ih =>
    have hc : c.isAlpha = true := h c (by simp)
    have hrange := toNat_toUpper_of_isAlpha hc
    have hinit := ih fun x hx => h x (List.mem_append_left _ hx)
    have hquotient : (26 * value init + (c.toUpper.toNat - 'A'.toNat + 1) - 1) / 26 =
        value init := by omega
    have hremainder : (26 * value init + (c.toUpper.toNat - 'A'.toNat + 1) - 1) % 26 =
        c.toUpper.toNat - 'A'.toNat := by omega
    rw [value_snoc, spell, dif_neg (by omega), hquotient, hremainder, hinit, letter_toUpper hc,
      List.map_append, List.map_singleton]

theorem value_pos (h : cs ≠ []) : 0 < value cs := by
  obtain ⟨init, c, rfl⟩ := (List.eq_nil_or_concat' cs).resolve_left h
  rw [value_snoc]
  omega

theorem ofLetters?_eq_some_iff : ofLetters? cs = some n ↔
    cs ≠ [] ∧ (∀ c ∈ cs, c.isAlpha = true) ∧ value cs ≤ Address.limit ∧ n = value cs - 1 := by
  rw [ofLetters?]
  split
  next hbad =>
    simp only [Bool.or_eq_true, List.isEmpty_iff, Bool.not_eq_true', decide_eq_true_eq] at hbad
    simp only [reduceCtorEq, false_iff]
    rintro ⟨hne, halpha, hle, _⟩
    rcases hbad with (hempty | hall) | hlarge
    · exact hne hempty
    · rw [List.all_eq_true.mpr halpha] at hall
      cases hall
    · omega
  next hgood =>
    simp only [Bool.or_eq_true, not_or, List.isEmpty_iff, Bool.not_eq_true', Bool.not_eq_false,
      List.all_eq_true, decide_eq_true_eq, Nat.not_lt] at hgood
    obtain ⟨⟨hne, halpha⟩, hle⟩ := hgood
    rw [Option.some.injEq]
    exact ⟨fun hn => ⟨hne, halpha, hle, hn.symm⟩, fun h => h.2.2.2.symm⟩

theorem ofLetters?_eq_some_iff_spell :
    ofLetters? cs = some n ↔ n < Address.limit ∧ cs.map Char.toUpper = spell (n + 1) := by
  constructor
  · intro h
    obtain ⟨hne, halpha, hle, rfl⟩ := ofLetters?_eq_some_iff.mp h
    have hpos := value_pos hne
    have hsucc : value cs - 1 + 1 = value cs := by omega
    rw [hsucc, spell_value halpha]
    exact ⟨by omega, rfl⟩
  · rintro ⟨hn, hspell⟩
    rw [← ofLetters?_map_toUpper, hspell, ofLetters?_spell hn]

/-- One letter more, unless a number on the way is too large for 64 bits. -/
def accumulate? (n : Nat) (c : Char) : Option Nat :=
  if c.toUpper.isUpper then
    if Address.limit < n * 26 then none
    else if Address.limit < n * 26 + (c.toUpper.toNat - 'A'.toNat + 1) then none
    else some (n * 26 + (c.toUpper.toNat - 'A'.toNat + 1))
  else none

def ofLettersChecked? (cs : List Char) : Option Nat :=
  if cs.isEmpty then none
  else (cs.foldlM accumulate? 0).bind fun n => if n = 0 then none else some (n - 1)

/-- The number that `n` becomes when letters are read behind it. -/
def valueAfter (n : Nat) (cs : List Char) : Nat :=
  cs.foldl (fun n c => 26 * n + (c.toUpper.toNat - 'A'.toNat + 1)) n

theorem le_valueAfter (n : Nat) (cs : List Char) : n ≤ valueAfter n cs := by
  induction cs generalizing n with
  | nil => exact Nat.le_refl n
  | cons c cs ih =>
    have hrest := ih (26 * n + (c.toUpper.toNat - 'A'.toNat + 1))
    have hcons : valueAfter n (c :: cs) =
        valueAfter (26 * n + (c.toUpper.toNat - 'A'.toNat + 1)) cs := rfl
    omega

theorem accumulate?_eq_some_iff {m : Nat} : accumulate? n c = some m ↔
    c.isAlpha = true ∧ m = 26 * n + (c.toUpper.toNat - 'A'.toNat + 1) ∧ m ≤ Address.limit := by
  rw [accumulate?, isUpper_toUpper]
  by_cases halpha : c.isAlpha = true
  · by_cases hlarge : Address.limit < n * 26 + (c.toUpper.toNat - 'A'.toNat + 1)
    · simp only [halpha, hlarge, if_true, ite_self, reduceCtorEq, true_and, false_iff]
      omega
    · have hproduct : ¬ Address.limit < n * 26 := by omega
      simp only [halpha, hlarge, hproduct, if_true, if_false, Option.some.injEq, true_and]
      omega
  · simp [halpha]

theorem foldlM_accumulate?_eq_some_iff {m : Nat} (hn : n ≤ Address.limit) :
    cs.foldlM accumulate? n = some m ↔
      (∀ c ∈ cs, c.isAlpha = true) ∧ m = valueAfter n cs ∧ m ≤ Address.limit := by
  induction cs generalizing n with
  | nil =>
    have hnil : valueAfter n [] = n := rfl
    simp only [List.foldlM_nil, Option.pure_def, Option.some.injEq, hnil]
    constructor
    · rintro rfl
      exact ⟨by simp, rfl, hn⟩
    · exact fun h => h.2.1.symm
  | cons c cs ih =>
    have hcons : valueAfter n (c :: cs) =
        valueAfter (26 * n + (c.toUpper.toNat - 'A'.toNat + 1)) cs := rfl
    rw [List.foldlM_cons, Option.bind_eq_bind, Option.bind_eq_some_iff, List.forall_mem_cons, hcons]
    constructor
    · rintro ⟨k, hk, hrest⟩
      obtain ⟨hc, rfl, hle⟩ := accumulate?_eq_some_iff.mp hk
      obtain ⟨hcs, hm, hlimit⟩ := (ih hle).mp hrest
      exact ⟨⟨hc, hcs⟩, hm, hlimit⟩
    · rintro ⟨⟨hc, hcs⟩, hm, hlimit⟩
      -- What is read later only makes the number larger.
      have hle := le_valueAfter (26 * n + (c.toUpper.toNat - 'A'.toNat + 1)) cs
      have hsmall : 26 * n + (c.toUpper.toNat - 'A'.toNat + 1) ≤ Address.limit := by omega
      exact ⟨_, accumulate?_eq_some_iff.mpr ⟨hc, rfl, hsmall⟩, (ih hsmall).mpr ⟨hcs, hm, hlimit⟩⟩

/-- It comes to the same whether the number is checked at every letter or in the end. -/
theorem ofLettersChecked?_eq (cs : List Char) : ofLettersChecked? cs = ofLetters? cs := by
  refine Option.ext fun n => ?_
  rw [ofLetters?_eq_some_iff, ofLettersChecked?]
  by_cases hne : cs = []
  · simp [hne]
  · have hpos := value_pos hne
    have hempty : cs.isEmpty = false := by simpa using hne
    have hvalue : valueAfter 0 cs = value cs := rfl
    simp only [hempty, Bool.false_eq_true, if_false, Option.bind_eq_some_iff,
      foldlM_accumulate?_eq_some_iff (Nat.zero_le _), hvalue]
    constructor
    · rintro ⟨m, ⟨halpha, rfl, hle⟩, hm⟩
      rw [if_neg (by omega), Option.some.injEq] at hm
      exact ⟨hne, halpha, hle, hm.symm⟩
    · rintro ⟨_, halpha, hle, rfl⟩
      exact ⟨value cs, ⟨halpha, rfl, hle⟩, if_neg (by omega)⟩

theorem ofLetters?_eq_some_iff_letters {w : String} :
    ofLetters? w.toList = some n ↔ n < Address.limit ∧ Text.upperAscii w = letters n := by
  rw [ofLetters?_eq_some_iff_spell, Text.upperAscii, letters, String.ofList_inj]

theorem upperAscii_letters (n : Nat) : Text.upperAscii (letters n) = letters n := by
  rw [Text.upperAscii, letters, String.toList_ofList, map_toUpper_spell]

/-- Columns and the words of capitals that name one are in one-to-one correspondence. -/
theorem bijOn_letters : Set.BijOn letters {n | n < Address.limit}
    {w | (ofLetters? w.toList).isSome = true ∧ Text.upperAscii w = w} := by
  have hback : ∀ n, n < Address.limit → ofLetters? (letters n).toList = some n :=
    fun n hn => ofLetters?_eq_some_iff_letters.mpr ⟨hn, upperAscii_letters n⟩
  refine ⟨?_, ?_, ?_⟩
  · intro n hn
    exact ⟨Option.isSome_of_eq_some (hback n hn), upperAscii_letters n⟩
  · intro m hm n hn heq
    have hsame := hback m hm
    rw [heq, hback n hn] at hsame
    exact (Option.some.inj hsame).symm
  · rintro w ⟨hsome, hupper⟩
    obtain ⟨n, hn⟩ := Option.isSome_iff_exists.mp hsome
    obtain ⟨hlt, hw⟩ := ofLetters?_eq_some_iff_letters.mp hn
    exact ⟨n, hlt, hw.symm.trans hupper⟩

end Column

namespace Decimal

theorem spell_of_lt_ten {n : Nat} (h : n < 10) : spell n = [n.digitChar] := by
  rw [spell, Nat.toDigits_eq_if (by decide), if_pos h]

theorem spell_of_ten_le {n : Nat} (h : 10 ≤ n) :
    spell n = spell (n / 10) ++ [(n % 10).digitChar] := by
  rw [spell, Nat.toDigits_eq_if (by decide), if_neg (by omega)]
  rfl

theorem digitChar_digitValue {c : Char} (h : c.isDigit = true) :
    digitValue c < 10 ∧ (digitValue c).digitChar = c := by
  obtain ⟨hlow, hhigh⟩ := Char.isDigit_iff_toNat.mp h
  have hzero : '0'.toNat = 48 := rfl
  have hnine : '9'.toNat = 57 := rfl
  have hlt : digitValue c < 10 := by
    rw [digitValue]
    omega
  refine ⟨hlt, Char.toNat_inj.mp ?_⟩
  rw [Nat.toNat_digitChar_of_lt_ten hlt, digitValue]
  omega

theorem ofDigits_snoc (cs : List Char) (c : Char) :
    ofDigits (cs ++ [c]) = 10 * ofDigits cs + digitValue c := by
  simp [ofDigits]

/-- Digits are determined by their number, if no zero stands in front of them. -/
theorem spell_ofDigits {cs : List Char} (hne : cs ≠ []) (hdigit : ∀ c ∈ cs, c.isDigit = true)
    (hhead : cs.head? ≠ some '0') : spell (ofDigits cs) = cs := by
  induction cs using List.reverseRecOn with
  | nil => exact absurd rfl hne
  | append_singleton init c ih =>
    obtain ⟨hlt, hchar⟩ := digitChar_digitValue (hdigit c (by simp))
    rw [ofDigits_snoc]
    by_cases hinit : init = []
    · subst hinit
      have hzero : ofDigits [] = 0 := rfl
      rw [hzero, Nat.mul_zero, Nat.zero_add, spell_of_lt_ten hlt, hchar]
      rfl
    · rw [List.head?_append_of_ne_nil _ hinit] at hhead
      have hspell := ih hinit (fun x hx => hdigit x (List.mem_append_left _ hx)) hhead
      have hpos : ofDigits init ≠ 0 := by
        intro hzero
        rw [hzero] at hspell
        rw [← hspell] at hhead
        exact hhead rfl
      have hquotient : (10 * ofDigits init + digitValue c) / 10 = ofDigits init := by omega
      have hremainder : (10 * ofDigits init + digitValue c) % 10 = digitValue c := by omega
      rw [spell_of_ten_le (by omega), hquotient, hremainder, hspell, hchar]

theorem ofDigits_dropWhile_zero (cs : List Char) :
    ofDigits (cs.dropWhile (· == '0')) = ofDigits cs := by
  induction cs with
  | nil => rfl
  | cons c cs ih =>
    by_cases hc : c = '0'
    · subst hc
      exact ih
    · rw [List.dropWhile_cons_of_neg (by simpa using hc)]

theorem spell_ofDigits_of_pos {cs : List Char} (hdigit : ∀ c ∈ cs, c.isDigit = true)
    (hpos : 0 < ofDigits cs) : spell (ofDigits cs) = cs.dropWhile (· == '0') := by
  have hvalue := ofDigits_dropWhile_zero cs
  rw [← hvalue]
  refine spell_ofDigits ?_ ?_ ?_
  · intro hempty
    rw [hempty] at hvalue
    have hzero : ofDigits [] = 0 := rfl
    omega
  · exact fun c hc => hdigit c ((List.dropWhile_sublist _).mem hc)
  · intro hhead
    have := List.head?_dropWhile_not (· == '0') cs
    rw [hhead] at this
    simp at this

end Decimal

namespace AddressText

/-- The letters and the digits stand for numbers that a place may have, counted from one. -/
structure Fits (t : AddressText) : Prop where
  col_pos : 1 ≤ Column.value t.letters
  col_le : Column.value t.letters ≤ Address.limit
  row_pos : 1 ≤ Decimal.ofDigits t.digits
  row_le : Decimal.ofDigits t.digits ≤ Address.limit

def place (t : AddressText) : Reference :=
  ⟨⟨Decimal.ofDigits t.digits - 1, Column.value t.letters - 1⟩, ⟨t.colFixed, t.rowFixed⟩⟩

/-- The same address in capitals, and without zeros in front of its number. -/
def canonical (t : AddressText) : AddressText :=
  { t.capital with digits := t.digits.dropWhile (· == '0') }

theorem reference?_eq_some_iff {t : AddressText} {r : Reference} (h : t.WellFormed) :
    t.reference? = some r ↔ t.Fits ∧ r = t.place := by
  rw [reference?]
  constructor
  · intro hr
    split at hr
    next => cases hr
    next col hcol =>
      obtain ⟨hne, _, hle, rfl⟩ := Column.ofLetters?_eq_some_iff.mp hcol
      dsimp only at hr
      split at hr
      next => cases hr
      next hrow =>
        obtain ⟨hpos, hlimit⟩ := not_or.mp hrow
        exact ⟨⟨Column.value_pos hne, hle, by omega, by omega⟩, (Option.some.inj hr).symm⟩
  · rintro ⟨hfits, rfl⟩
    have hcol : Column.ofLetters? t.letters = some (Column.value t.letters - 1) :=
      Column.ofLetters?_eq_some_iff.mpr
        ⟨h.letters_ne_nil, h.isAlpha_letters, hfits.col_le, rfl⟩
    have hrow : ¬ (Decimal.ofDigits t.digits = 0 ∨ Address.limit < Decimal.ofDigits t.digits) := by
      have hpos := hfits.row_pos
      have hle := hfits.row_le
      omega
    rw [hcol]
    exact if_neg hrow

theorem parts_place {t : AddressText} (h : t.WellFormed) (hfits : t.Fits) :
    t.place.parts = t.canonical := by
  have hcol : Column.value t.letters - 1 + 1 = Column.value t.letters := by
    have := hfits.col_pos
    omega
  have hrow : Decimal.ofDigits t.digits - 1 + 1 = Decimal.ofDigits t.digits := by
    have := hfits.row_pos
    omega
  simp only [Reference.parts, place, hcol, hrow, Column.spell_value h.isAlpha_letters,
    Decimal.spell_ofDigits_of_pos h.isDigit_digits hfits.row_pos]
  rfl

end AddressText

namespace Reference

theorem decode_eq_ok_iff {text : String} {r : Reference} :
    decode text = .ok r ↔ ofText? text = some r := by
  rw [decode]
  cases ofText? text with
  | none => simp
  | some r' => simp

theorem decode_eq_ok_iff_parts {text : String} {r : Reference} : decode text = .ok r ↔
    ∃ t : AddressText, t.WellFormed ∧ text = String.ofList t.chars ∧ t.Fits ∧ r = t.place := by
  rw [decode_eq_ok_iff, ofText?, Option.bind_eq_some_iff]
  constructor
  · rintro ⟨t, ht, hr⟩
    obtain ⟨hformed, hchars⟩ := AddressText.read?_eq_some_iff.mp ht
    obtain ⟨hfits, rfl⟩ := (AddressText.reference?_eq_some_iff hformed).mp hr
    exact ⟨t, hformed, by rw [hchars, String.ofList_toList], hfits, rfl⟩
  · rintro ⟨t, hformed, rfl, hfits, rfl⟩
    refine ⟨t, ?_, (AddressText.reference?_eq_some_iff hformed).mpr ⟨hfits, rfl⟩⟩
    rw [String.toList_ofList]
    exact AddressText.read?_chars hformed

/-- Up to the last row and column of 64 bits, addresses and columns are read back as they were
written. What is read is letters and digits that stand for numbers of 64 bits, and it is written
again in capitals and without zeros in front. -/
theorem addresses_round_trip :
    (∀ r : Reference, r.address.col < Address.limit → r.address.row < Address.limit →
        decode r.text = .ok r) ∧
      (∀ (w : String) (n : Nat), Column.ofLetters? w.toList = some n ↔
        n < Address.limit ∧ Text.upperAscii w = Column.letters n) ∧
      Set.BijOn Column.letters {n | n < Address.limit}
        {w | (Column.ofLetters? w.toList).isSome = true ∧ Text.upperAscii w = w} ∧
      (∀ cs, Column.ofLettersChecked? cs = Column.ofLetters? cs) ∧
      (∀ (text : String) (r : Reference), decode text = .ok r ↔
        ∃ t : AddressText, t.WellFormed ∧ text = String.ofList t.chars ∧ t.Fits ∧ r = t.place) ∧
      ∀ t : AddressText, t.WellFormed → t.Fits → t.place.text = String.ofList t.canonical.chars := by
  refine ⟨?_, fun w n => Column.ofLetters?_eq_some_iff_letters, Column.bijOn_letters,
    Column.ofLettersChecked?_eq, fun text r => decode_eq_ok_iff_parts, ?_⟩
  · exact fun r hcol hrow => decode_eq_ok_iff.mpr (ofText?_text hcol hrow)
  · intro t hformed hfits
    rw [text, ← chars_parts, AddressText.parts_place hformed hfits]

/-- The last place of all is read back, and a padded address loses its zeros. -/
theorem addresses_round_trip_last :
    decode (text ⟨⟨18446744073709551614, 18446744073709551614⟩, ⟨true, false⟩⟩) =
        .ok ⟨⟨18446744073709551614, 18446744073709551614⟩, ⟨true, false⟩⟩ ∧
      (AddressText.place ⟨true, ['a', 'B'], false, ['0', '0', '7']⟩).text = "$AB7" := by
  have hlast : 18446744073709551614 < Address.limit := by decide
  obtain ⟨hread, _, _, _, _, hwritten⟩ := addresses_round_trip
  refine ⟨hread ⟨⟨18446744073709551614, 18446744073709551614⟩, ⟨true, false⟩⟩ hlast hlast, ?_⟩
  rw [hwritten _ ⟨by simp, by simp, by simp, by simp⟩
    ⟨by decide, by decide +kernel, by decide, by decide +kernel⟩]
  rfl

end Reference

end Recalc
