import Recalc.Proofs.Formula.Printing
import Recalc.Proofs.Number.Overflow

namespace Recalc

namespace Expr

mutual

/-- The numbers of a formula from left to right. -/
def numbers : Expr → List Float
  | number x => [x]
  | call _ args => argumentNumbers args
  | binary _ left right => left.numbers ++ right.numbers
  | neg operand => operand.numbers
  | text _ | bool _ | ref _ | range _ _ => []

def argumentNumbers : List Expr → List Float
  | [] => []
  | e :: es => e.numbers ++ argumentNumbers es

end

theorem argumentNumbers_eq (es : List Expr) : argumentNumbers es = es.flatMap numbers := by
  induction es with
  | nil => rfl
  | cons e es ih => rw [argumentNumbers, ih, List.flatMap_cons]

end Expr

namespace Lexeme

def value? : Lexeme → Option Float
  | number x => some x
  | _ => none

theorem value?_eq_some_iff {l : Lexeme} {x : Float} : l.value? = some x ↔ l = .number x := by
  cases l <;> simp [value?]

/-- Of the numbers that are written the finite ones are read back. -/
theorem filterMap_readBack (ls : List Lexeme) :
    (ls.map readBack).filterMap value? = (ls.filterMap value?).filter Number.isFinite := by
  induction ls with
  | nil => rfl
  | cons l ls ih =>
    rw [List.map_cons]
    cases l with
    | number x =>
      have hvalue : (number x).value? = some x := rfl
      rw [readBack, List.filterMap_cons_some hvalue]
      split
      next hfinite =>
        rw [List.filterMap_cons_some hvalue, List.filter_cons_of_pos hfinite, ih]
      next hinfinite =>
        rw [List.filterMap_cons_none rfl, List.filter_cons_of_neg hinfinite, ih]
    | _ => exact ih

end Lexeme

theorem filterMap_intercalate {xs : List (List Lexeme)} :
    ([Lexeme.comma].intercalate xs).filterMap Lexeme.value? =
      xs.flatMap (·.filterMap Lexeme.value?) := by
  induction xs with
  | nil => rfl
  | cons x xs ih =>
    cases xs with
    | nil => rw [List.intercalate_singleton, List.flatMap_singleton]
    | cons y ys =>
      rw [List.intercalate_cons_cons, List.filterMap_append, List.filterMap_append, ih]
      simp [Lexeme.value?]

/-- A formula has the numbers that stand among its lexemes. -/
theorem Derives.numbers {n : Nat} {ls : List Lexeme} {e : Expr} (h : Derives n ls e) :
    ls.filterMap Lexeme.value? = e.numbers := by
  induction h with
  | weaken _ ih => exact ih
  | binary _ _ _ ihleft ihright =>
    rw [List.filterMap_append, List.filterMap_cons, ihleft, ihright, Expr.numbers]
    rfl
  | neg _ ih =>
    rw [List.filterMap_cons, ih, Expr.numbers]
    rfl
  | number x =>
    rw [Expr.numbers]
    rfl
  | text | bool | ref | range =>
    rw [Expr.numbers]
    rfl
  | @call f args _ ih =>
    have hargs : args.flatMap (fun arg => arg.1.filterMap Lexeme.value?) =
        args.flatMap (fun arg => arg.2.numbers) := List.flatMap_congr ih
    rw [Expr.numbers, Expr.argumentNumbers_eq, List.flatMap_map, ← hargs]
    change List.filterMap Lexeme.value?
      ([Lexeme.comma].intercalate (args.map fun arg => arg.1) ++ [Lexeme.rightParen]) = _
    rw [List.filterMap_append, filterMap_intercalate, List.flatMap_map]
    exact List.append_nil _
  | group _ ih =>
    rw [List.filterMap_cons, List.filterMap_append, ih]
    exact List.append_nil _

namespace Scan

/-- The digits at the start, with at most one point among them. -/
def numeral (cs : List Char) : List Char :=
  match cs.dropWhile Char.isDigit with
  | '.' :: rest => cs.takeWhile Char.isDigit ++ '.' :: rest.takeWhile Char.isDigit
  | _ => cs.takeWhile Char.isDigit

theorem numeral_of_point {cs part : List Char} (h : cs.dropWhile Char.isDigit = '.' :: part) :
    numeral cs = cs.takeWhile Char.isDigit ++ '.' :: part.takeWhile Char.isDigit := by
  simp only [numeral, h]

theorem numeral_of_no_point {cs : List Char}
    (h : ∀ part, cs.dropWhile Char.isDigit ≠ '.' :: part) :
    numeral cs = cs.takeWhile Char.isDigit := by
  unfold numeral
  split
  next part hpart => exact (h part hpart).elim
  next => rfl

theorem head?_numeral {c : Char} (rest : List Char) (hc : (c.isDigit || c == '.') = true) :
    ∃ tail, numeral (c :: rest) = c :: tail := by
  unfold numeral
  cases hdigit : c.isDigit with
  | true =>
    rw [List.takeWhile_cons, hdigit]
    split <;> exact ⟨_, rfl⟩
  | false =>
    obtain rfl : c = '.' := by simpa [hdigit] using hc
    exact ⟨_, rfl⟩

theorem splitSign_numeral {c : Char} (rest : List Char) (hc : (c.isDigit || c == '.') = true) :
    Decimal.splitSign (numeral (c :: rest)) = (false, numeral (c :: rest)) := by
  obtain ⟨tail, htail⟩ := head?_numeral rest hc
  rw [htail]
  unfold Decimal.splitSign
  split
  next heq =>
    cases heq
    cases hc
  next heq =>
    cases heq
    cases hc
  next => rfl

/-- A formula takes a number for the decimal that its characters spell. -/
theorem read?_numeral {c : Char} {rest : List Char} {l : Lexeme} {n : Nat}
    (hc : (c.isDigit || c == '.') = true) (h : number? (c :: rest) = some (l, n)) :
    ∃ d, Decimal.read? (numeral (c :: rest)) = some d ∧ d.negative = false ∧
      l = .number d.toFloat := by
  have hwhole : ∀ d ∈ (c :: rest).takeWhile Char.isDigit, d.isDigit = true :=
    fun d hd => List.mem_takeWhile_imp hd
  have hend : ∀ d ∈ ([] : List Char).head?, d.isDigit = false := by simp
  rw [Decimal.read?, splitSign_numeral rest hc]
  dsimp only
  simp only [number?] at h
  split at h
  next part hpart =>
    have hpoint : ∀ d ∈ ('.' :: part.takeWhile Char.isDigit).head?, d.isDigit = false := by
      rintro d ⟨⟩
      rfl
    have hdigits : ∀ d ∈ part.takeWhile Char.isDigit, d.isDigit = true :=
      fun d hd => List.mem_takeWhile_imp hd
    obtain ⟨htake, hdrop⟩ := span_append hwhole hpoint
    obtain ⟨htake', hdrop'⟩ := span_append hdigits hend
    rw [List.append_nil] at htake' hdrop'
    split at h
    next => cases h
    next hne =>
      cases h
      rw [numeral_of_point hpart]
      simp only [Decimal.readUnsigned, htake, hdrop, htake', hdrop', hne]
      simp [Decimal.readScale]
  next hnone =>
    cases h
    obtain ⟨htake, hdrop⟩ := span_append hwhole hend
    rw [List.append_nil] at htake hdrop
    have hne : ((c :: rest).takeWhile Char.isDigit).isEmpty = false := by
      cases hdigit : c.isDigit with
      | true => rw [List.takeWhile_cons, hdigit]; rfl
      | false =>
        obtain rfl : c = '.' := by simpa [hdigit] using hc
        exact (hnone rest rfl).elim
    rw [numeral_of_no_point fun part hpart => hnone part hpart]
    simp only [Decimal.readUnsigned, htake, hdrop, hne]
    simp [Decimal.readScale]

/-- The numerals of a text from left to right, which are its tokens that are numbers. -/
def numerals (cs : List Char) : List (List Char) :=
  ((ofChars 0 cs).tokens.filter (·.lexeme.value?.isSome)).map fun t => numeral (cs.drop t.pos)

/-- A token stands where its place says. -/
theorem lexeme?_of_mem_tokens {pos : Nat} {cs : List Char} {t : Token}
    (ht : t ∈ (ofChars pos cs).tokens) :
    pos ≤ t.pos ∧ ∃ c rest n, cs.drop (t.pos - pos) = c :: rest ∧
      lexeme? c rest = some (t.lexeme, n) := by
  induction hlength : cs.length using Nat.strongRecOn generalizing pos cs with
  | ind length ih =>
    cases cs with
    | nil =>
      rw [ofChars_nil] at ht
      cases ht
    | cons c rest =>
      rw [ofChars_cons] at ht
      split at ht
      next =>
        obtain ⟨hle, hlexeme⟩ := ih rest.length (by simp [← hlength]) ht rfl
        refine ⟨by omega, ?_⟩
        rw [show t.pos - pos = t.pos - (pos + 1) + 1 by omega, List.drop_succ_cons]
        exact hlexeme
      next =>
        split at ht
        next => cases ht
        next l n hl =>
          rcases List.mem_cons.mp ht with rfl | ht
          · refine ⟨le_rfl, c, rest, n, ?_, hl⟩
            simp
          · obtain ⟨hle, hlexeme⟩ := ih (rest.drop (n - 1)).length
              (by simp only [← hlength, List.length_cons, List.length_drop]; omega) ht rfl
            refine ⟨by omega, ?_⟩
            rw [List.drop_drop] at hlexeme
            rw [show t.pos - pos = n - 1 + (t.pos - (pos + 1 + (n - 1))) + 1 by omega,
              List.drop_succ_cons]
            exact hlexeme

theorem number?_of_lexeme? {c : Char} {rest : List Char} {x : Float} {n : Nat}
    (h : lexeme? c rest = some (.number x, n)) :
    (c.isDigit || c == '.') = true ∧ number? (c :: rest) = some (.number x, n) := by
  -- No other lexeme is a number, or it would be a legible one where no number is.
  have hnone : ∀ {l : Lexeme}, l.Legible (fun _ => False) → l ≠ .number x := by
    rintro l hl rfl
    exact hl.of_number
  by_cases hc : c ∈ markStarts
  · exact (hnone (legible_of_mem_markStarts hc h) rfl).elim
  · rw [lexeme?_of_not_mem_markStarts hc] at h
    split at h
    next hnumber => exact ⟨hnumber, h⟩
    next =>
      split at h
      next hword =>
        obtain ⟨hl, _⟩ := Prod.mk.inj (Option.some.inj h)
        exact (hnone (Lexeme.legible_classify (isWord_takeWhile hword rest)) hl).elim
      next => cases h

end Scan

/-- What a formula reads for a numeral: the number that is read for it anywhere else, or infinity
for one that is too large for a double and is read nowhere else. -/
def ReadsNumeral (cs : List Char) (x : Float) : Prop :=
  ∃ d, Decimal.read? cs = some d ∧ x = d.toFloat ∧
    (d.unsigned < 2 ^ 1024 - 2 ^ 970 ∧ Number.isFinite x = true ∧ Number.read? cs = some x ∨
      2 ^ 1024 - 2 ^ 970 ≤ d.unsigned ∧ x = 1 / 0 ∧ Number.read? cs = none)

theorem ReadsNumeral.isFinite_iff {cs : List Char} {x : Float} (h : ReadsNumeral cs x) :
    Number.isFinite x = true ↔
      ∀ d, Decimal.read? cs = some d → d.unsigned < 2 ^ 1024 - 2 ^ 970 := by
  obtain ⟨d, hd, rfl, -⟩ := h
  rw [d.isFinite_toFloat_iff, hd]
  simp

namespace Scan

theorem readsNumeral_of_number? {c : Char} {rest : List Char} {x : Float} {n : Nat}
    (hc : (c.isDigit || c == '.') = true) (h : number? (c :: rest) = some (.number x, n)) :
    ReadsNumeral (numeral (c :: rest)) x := by
  obtain ⟨d, hd, hsign, hx⟩ := read?_numeral hc h
  cases hx
  refine ⟨d, hd, rfl, ?_⟩
  have hread : Number.read? (numeral (c :: rest)) =
      if Number.isFinite d.toFloat then some d.toFloat else none := by
    rw [Number.read?, hd]
  by_cases hlt : d.unsigned < 2 ^ 1024 - 2 ^ 970
  · have hfinite := d.isFinite_toFloat_iff.mpr hlt
    exact Or.inl ⟨hlt, hfinite, by rw [hread, if_pos hfinite]⟩
  · have hinfinite := mt d.isFinite_toFloat_iff.mp hlt
    have hunsigned := (legible_number? h).of_number
    refine Or.inr ⟨not_lt.mp hlt, hunsigned.1.resolve_left hinfinite, ?_⟩
    rw [hread, if_neg hinfinite]

theorem forall₂_numerals (cs : List Char) :
    List.Forall₂ ReadsNumeral (numerals cs)
      (((ofChars 0 cs).tokens.map (·.lexeme)).filterMap Lexeme.value?) := by
  have htokens : ∀ ts : List Token, (∀ t ∈ ts, t ∈ (ofChars 0 cs).tokens) →
      List.Forall₂ ReadsNumeral
        ((ts.filter (·.lexeme.value?.isSome)).map fun t => numeral (cs.drop t.pos))
        ((ts.map (·.lexeme)).filterMap Lexeme.value?) := by
    intro ts hts
    induction ts with
    | nil => exact .nil
    | cons t ts ih =>
      obtain ⟨ht, hts⟩ := List.forall_mem_cons.mp hts
      obtain ⟨-, c, rest, n, hdrop, hlexeme⟩ := lexeme?_of_mem_tokens ht
      cases hvalue : t.lexeme.value? with
      | none =>
        rw [List.filter_cons_of_neg (by simp [hvalue]), List.map_cons,
          List.filterMap_cons_none hvalue]
        exact ih hts
      | some x =>
        have hx := Lexeme.value?_eq_some_iff.mp hvalue
        rw [List.filter_cons_of_pos (by simp [hvalue]), List.map_cons, List.map_cons,
          List.filterMap_cons_some hvalue]
        refine .cons ?_ (ih hts)
        rw [hx] at hlexeme
        obtain ⟨hc, hnumber⟩ := number?_of_lexeme? hlexeme
        rw [show cs.drop t.pos = c :: rest from hdrop]
        exact readsNumeral_of_number? hc hnumber
  exact htokens _ fun t ht => ht

end Scan

theorem forall_mem_iff_of_forall₂ {α β : Type} {r : α → β → Prop} {p : α → Prop} {q : β → Prop}
    {as : List α} {bs : List β} (h : List.Forall₂ r as bs) (hr : ∀ a b, r a b → (q b ↔ p a)) :
    (∀ b ∈ bs, q b) ↔ ∀ a ∈ as, p a := by
  induction h with
  | nil => simp
  | cons hab _ ih => rw [List.forall_mem_cons, List.forall_mem_cons, hr _ _ hab, ih]

namespace Expr

theorem derives_of_read {source : String} {e : Expr} (h : Expr.read source = .ok e) :
    Derives 1 ((Scan.ofText (formulaBody source)).tokens.map (·.lexeme)) e := by
  obtain ⟨_, s, _, hsteps, hfinish⟩ := Reader.run_eq_ok_iff.mp h
  exact Reader.steps_finish_iff.mp ⟨s, hsteps, hfinish⟩

/-- Only formulas without infinite numbers are read back from their text. -/
theorem read_toText_iff {e : Expr} (h : e.Writable Number.UnsignedOrInfinite) :
    Expr.read e.toText = .ok e ↔ ∀ x ∈ e.numbers, Number.isFinite x = true := by
  rw [read_toText_eq_ok_iff h]
  constructor
  · intro hread
    have hnumbers := hread.numbers
    rwa [Lexeme.filterMap_readBack, h.derives.numbers, List.filter_eq_self] at hnumbers
  · intro hfinite
    have hlexemes : e.lexemes.map Lexeme.readBack = e.lexemes := by
      refine (List.map_congr_left fun l hl => ?_).trans (List.map_id _)
      cases l with
      | number x =>
        refine if_pos (hfinite x ?_)
        rw [← h.derives.numbers]
        exact List.mem_filterMap.mpr ⟨_, hl, rfl⟩
      | _ => rfl
    rw [hlexemes]
    exact h.derives.mono e.level_pos

/-- The numbers of a formula are what it reads for the numerals of the text, one after the other.
So they are finite exactly if no numeral is too large for a double, and then only the formula is
read back from its text. -/
theorem numbers_of_read {source : String} {e : Expr} (h : Expr.read source = .ok e) :
    List.Forall₂ ReadsNumeral (Scan.numerals (formulaBody source).toList) e.numbers ∧
      ((∀ x ∈ e.numbers, Number.isFinite x = true) ↔
        ∀ cs ∈ Scan.numerals (formulaBody source).toList, ∀ d, Decimal.read? cs = some d →
          d.unsigned < 2 ^ 1024 - 2 ^ 970) ∧
      (Expr.read e.toText = .ok e ↔ ∀ x ∈ e.numbers, Number.isFinite x = true) := by
  have hderives := derives_of_read h
  have hnumbers :
      List.Forall₂ ReadsNumeral (Scan.numerals (formulaBody source).toList) e.numbers := by
    rw [← hderives.numbers]
    exact Scan.forall₂_numerals (formulaBody source).toList
  have hwritable : e.Writable Number.UnsignedOrInfinite := by
    refine hderives.writable fun l hl => ?_
    obtain ⟨t, ht, rfl⟩ := List.mem_map.mp hl
    exact Scan.legible_ofChars 0 _ t ht
  exact ⟨hnumbers, forall_mem_iff_of_forall₂ hnumbers fun _ _ hr => hr.isFinite_iff,
    read_toText_iff hwritable⟩

/-- Two numbers that are read back. -/
theorem numbers_of_read_product :
    let e := Expr.binary .mul (.number 1.5) (.number 0.5)
    Expr.read "=1.5*.5" = .ok e ∧
      List.Forall₂ ReadsNumeral [['1', '.', '5'], ['.', '5']] [1.5, 0.5] ∧
      Expr.read e.toText = .ok e := by
  intro e
  have hread : Expr.read "=1.5*.5" = .ok e := by
    with_unfolding_all rfl
  have hnumerals : Scan.numerals (formulaBody "=1.5*.5").toList = [['1', '.', '5'], ['.', '5']] := by
    decide +kernel
  obtain ⟨hnumbers, -, hback⟩ := numbers_of_read hread
  rw [hnumerals] at hnumbers
  have hfinite : ∀ x ∈ e.numbers, Number.isFinite x = true :=
    List.forall_mem_cons.mpr ⟨rfl, List.forall_mem_singleton.mpr rfl⟩
  exact ⟨hread, hnumbers, hback.mpr hfinite⟩

end Expr

namespace Decimal

theorem pointed_nil (whole : List Char) : pointed whole [] = whole := List.append_nil whole

theorem pointed_power (k : Nat) : Pointed ('1' :: List.replicate k '0') [] := by
  refine ⟨List.cons_ne_nil _ _, ?_, by simp, Or.inr (by simp)⟩
  refine List.forall_mem_cons.mpr ⟨rfl, fun c hc => ?_⟩
  rw [List.eq_of_mem_replicate hc]
  rfl

theorem ofDigits_power (k : Nat) : ofDigits ('1' :: List.replicate k '0') = 10 ^ k := by
  have hzeros := ofDigits_append_replicate ['1'] k
  rwa [show ofDigits ['1'] = 1 from rfl, Nat.one_mul] at hzeros

end Decimal

namespace Expr

/-- Digits alone are a formula. -/
theorem read_digits {cs : List Char} (h : Decimal.Pointed cs []) :
    Expr.read (String.ofList ('=' :: cs)) =
      .ok (.number (Decimal.magnitude (Decimal.ofDigits cs) 0)) := by
  have hspells : Scan.Spells cs (.number (Decimal.magnitude (Decimal.ofDigits cs) 0)) [] := by
    have hend : ∀ c ∈ ([] : List Char).head?, c.isDigit = false ∧ c ≠ '.' := by simp
    have hspells := Scan.spells_pointed h hend
    rwa [List.append_nil, Decimal.pointed_nil] at hspells
  have hbody : formulaBody (String.ofList ('=' :: cs)) = String.ofList cs := by
    unfold formulaBody
    split
    next cs' heq =>
      rw [String.toList_ofList] at heq
      cases heq
      rfl
    next hne => exact (hne cs String.toList_ofList).elim
  have hscan : Scan.ofText (String.ofList cs) =
      ⟨[⟨.number (Decimal.magnitude (Decimal.ofDigits cs) 0), 0⟩], .finished (0 + cs.length)⟩ := by
    rw [Scan.ofText, String.toList_ofList, ← List.append_nil cs, Scan.ofChars_of_spells hspells,
      Scan.ofChars_nil, List.append_nil]
  rw [Expr.read, hbody, hscan]
  rfl

/-- A one with zeros enough is infinity in a formula, and no number anywhere else. -/
theorem read_power {k : Nat} (hk : 2 ^ 1024 ≤ 10 ^ k + 2 ^ 970) :
    Expr.read (String.ofList ('=' :: '1' :: List.replicate k '0')) = .ok (.number (1 / 0)) ∧
      Number.read? ('1' :: List.replicate k '0') = none := by
  have hpointed := Decimal.pointed_power k
  have hmagnitude : Decimal.magnitude (10 ^ k) 0 = 1 / 0 := by
    refine Decimal.magnitude_eq_infinity ?_
    rw [zpow_zero, mul_one, sub_le_iff_le_add]
    exact_mod_cast hk
  constructor
  · have hread := read_digits hpointed
    rwa [Decimal.ofDigits_power, hmagnitude] at hread
  · have hdecimal := hpointed.read?_eq ⟨false, 0, 0⟩
    rw [Decimal.pointed_nil, List.append_nil, Decimal.ofDigits_power] at hdecimal
    have hinfinite : Number.isFinite (Decimal.mk false (10 ^ k) 0).toFloat = false :=
      (congrArg Number.isFinite hmagnitude).trans rfl
    rw [Number.read?, show Decimal.read? ('1' :: List.replicate k '0') = _ from hdecimal]
    exact if_neg (Bool.eq_false_iff.mp hinfinite)

/-- Infinity is written as a word that is no formula. -/
theorem infinity_of_read :
    (Expr.read (String.ofList ('=' :: '1' :: List.replicate 309 '0')) = .ok (.number (1 / 0)) ∧
      Number.read? ('1' :: List.replicate 309 '0') = none) ∧
      Number.isFinite (1 / 0) = false ∧ (Expr.number (1 / 0)).toText = "Infinity" ∧
      Expr.read "Infinity" = .error (.unexpectedToken endOfInput 8) := by
  have hlarge : 2 ^ 1024 ≤ 10 ^ 309 + 2 ^ 970 := by decide +kernel
  exact ⟨read_power hlarge, rfl, rfl, by with_unfolding_all rfl⟩

end Expr

end Recalc
