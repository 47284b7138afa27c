import Recalc.Proofs.Formula.Cursor

namespace Recalc

namespace Scan

variable {cs front rest later : List Char} {tokens : List Token} {pos length : Nat}
  {e : ReadError}

/-- The text, which stands behind `pos` other characters, is cut into blanks and the tokens, and
`later` is left of it. Each token stands at its place and is the longest lexeme there. -/
inductive Split : Nat → List Char → List Token → List Char → Prop
  | nil (pos : Nat) (later : List Char) : Split pos later [] later
  | blank {pos : Nat} {c : Char} {rest later : List Char} {tokens : List Token}
      (hblank : Text.isBlank c = true) (hrest : Split (pos + 1) rest tokens later) :
      Split pos (c :: rest) tokens later
  | token {pos : Nat} {l : Lexeme} {chars rest later : List Char} {tokens : List Token}
      (hl : l.Longest chars (chars ++ rest))
      (hrest : Split (pos + chars.length) rest tokens later) :
      Split pos (chars ++ rest) (⟨l, pos⟩ :: tokens) later

/-- What the tokens leave may break off anywhere. -/
theorem Split.exists_front (h : Split pos cs tokens later) :
    ∃ front, cs = front ++ later ∧
      ∀ later', later' <+: later → Split pos (front ++ later') tokens later' := by
  induction h with
  | nil pos later => exact ⟨[], rfl, fun later' _ => .nil pos later'⟩
  | @blank pos c rest later tokens hblank _ ih =>
    obtain ⟨front, rfl, hfront⟩ := ih
    exact ⟨c :: front, rfl, fun later' hlater => .blank hblank (hfront later' hlater)⟩
  | @token pos l chars rest later tokens hl _ ih =>
    obtain ⟨front, rfl, hfront⟩ := ih
    refine ⟨chars ++ front, (List.append_assoc chars front later).symm, fun later' hlater => ?_⟩
    have hbegins : front ++ later' <+: front ++ later :=
      (List.prefix_append_right_inj front).mpr hlater
    rw [List.append_assoc]
    exact .token (hl.of_prefix hbegins) (hfront later' hlater)

/-- The tokens of a text that is split are read first. -/
theorem Split.ofChars_eq (h : Split pos (front ++ later) tokens later) :
    ofChars pos (front ++ later) = (ofChars (pos + front.length) later).behind tokens := by
  -- By induction on the split; what stands before the rest is determined by what it leaves.
  generalize hcs : front ++ later = cs at h
  induction h generalizing front with
  | nil pos later =>
    obtain rfl : front = [] := List.append_left_eq_self.mp hcs
    rfl
  | @blank pos c rest later tokens hblank hrest ih =>
    obtain ⟨front', rfl, -⟩ := hrest.exists_front
    obtain rfl : front = c :: front' := List.append_cancel_right hcs
    have hplace : pos + (c :: front').length = pos + 1 + front'.length := by
      rw [List.length_cons]
      omega
    rw [ofChars_cons, if_pos hblank, hplace]
    exact ih rfl
  | @token pos l chars rest later tokens hl hrest ih =>
    obtain ⟨front', rfl, -⟩ := hrest.exists_front
    rw [← List.append_assoc] at hcs
    obtain rfl : front = chars ++ front' := List.append_cancel_right hcs
    have hplace : pos + (chars ++ front').length = pos + chars.length + front'.length := by
      rw [List.length_append]
      omega
    rw [ofChars_of_spells hl.spells, hplace, ih rfl]
    rfl

/-- How a text stops of which `rest` is left at the place `pos`. -/
inductive StopsAt (pos : Nat) : List Char → Stop → Prop
  | finished : StopsAt pos [] (.finished pos)
  | broken {rest : List Char} {e : ReadError} (he : Unreadable pos rest e) :
      StopsAt pos rest (.broken e)

/-- A text is split into the tokens that are read, up to its end or to where nothing can be read. -/
theorem exists_split (pos : Nat) (cs : List Char) :
    ∃ front rest, cs = front ++ rest ∧ Split pos cs (ofChars pos cs).tokens rest ∧
      StopsAt (pos + front.length) rest (ofChars pos cs).stop := by
  induction pos, cs using ofChars.induct with
  | case1 pos =>
    rw [ofChars_nil]
    exact ⟨[], [], rfl, .nil pos [], .finished⟩
  | case2 pos c cs hblank ih =>
    obtain ⟨front, rest, hcs, hsplit, hstop⟩ := ih
    have hplace : pos + (c :: front).length = pos + 1 + front.length := by
      rw [List.length_cons]
      omega
    rw [ofChars_cons, if_pos hblank]
    refine ⟨c :: front, rest, congrArg (c :: ·) hcs, .blank hblank hsplit, ?_⟩
    rw [hplace]
    exact hstop
  | case3 pos c cs hblank hnone =>
    rw [ofChars_cons, if_neg hblank, hnone]
    exact ⟨[], c :: cs, rfl, .nil pos _,
      .broken (unreadable_of_lexeme? (Bool.eq_false_iff.mpr hblank) hnone pos)⟩
  | case4 pos c cs hblank l n hl ih =>
    obtain ⟨chars, hlongest, rfl⟩ := lexeme?_eq_some_iff.mp hl
    obtain ⟨d, tail, rfl, -⟩ := hlongest.spelling.spells
    obtain ⟨rfl, later, rfl⟩ := List.cons_prefix_cons.mp hlongest.begins
    have hplace : pos + 1 + ((d :: tail).length - 1) = pos + (d :: tail).length := by
      rw [List.length_cons]
      omega
    have hdrop : (tail ++ later).drop ((d :: tail).length - 1) = later := List.drop_left
    rw [hplace, hdrop] at ih
    obtain ⟨front, rest, rfl, hsplit, hstop⟩ := ih
    rw [Nat.add_assoc, ← List.length_append] at hstop
    rw [← List.cons_append, ofChars_of_spells hlongest.spells]
    exact ⟨d :: tail ++ front, rest, (List.append_assoc _ front rest).symm,
      .token hlongest hsplit, hstop⟩

theorem complete_eq_ok_iff {scan : Scan} :
    scan.complete = .ok (tokens, length) ↔ scan = ⟨tokens, .finished length⟩ := by
  obtain ⟨ts, stop⟩ := scan
  cases stop <;> simp [complete]

theorem complete_eq_error_iff {scan : Scan} :
    scan.complete = .error e ↔ ∃ tokens, scan = ⟨tokens, .broken e⟩ := by
  obtain ⟨ts, stop⟩ := scan
  cases stop <;> simp [complete]

/-- A text is read to its end exactly into the tokens of which it consists. -/
theorem ofChars_eq_finished_iff :
    ofChars 0 cs = ⟨tokens, .finished length⟩ ↔ Split 0 cs tokens [] ∧ length = cs.length := by
  constructor
  · intro h
    obtain ⟨front, rest, hcs, hsplit, hstop⟩ := exists_split 0 cs
    rw [h] at hsplit hstop
    cases hstop
    rw [List.append_nil] at hcs
    exact ⟨hsplit, by rw [Nat.zero_add, hcs]⟩
  · rintro ⟨hsplit, rfl⟩
    rw [← List.append_nil cs] at hsplit
    have hread := hsplit.ofChars_eq
    rw [List.append_nil, ofChars_nil, Nat.zero_add] at hread
    rw [hread, behind, List.append_nil]

/-- Reading breaks off exactly where the text that is left behind some tokens cannot be read. -/
theorem ofChars_eq_broken_iff : ofChars 0 cs = ⟨tokens, .broken e⟩ ↔
    ∃ front rest, cs = front ++ rest ∧ Split 0 cs tokens rest ∧ Unreadable front.length rest e := by
  constructor
  · intro h
    obtain ⟨front, rest, hcs, hsplit, hstop⟩ := exists_split 0 cs
    rw [h, Nat.zero_add] at hstop
    rw [h] at hsplit
    cases hstop with
    | broken he => exact ⟨front, rest, hcs, hsplit, he⟩
  · rintro ⟨front, rest, rfl, hsplit, he⟩
    rw [hsplit.ofChars_eq, Nat.zero_add]
    cases rest with
    | nil => cases he
    | cons c rest =>
      obtain ⟨hblank, hnone, rfl⟩ := lexeme?_eq_none_of_unreadable he
      rw [ofChars_cons, hblank, hnone]
      simp [behind]

/-- What stands before the place where reading breaks off consists of the tokens read by then. -/
theorem Split.complete_front (h : Split 0 (front ++ rest) tokens rest) :
    (ofText (String.ofList front)).complete = .ok (tokens, front.length) := by
  obtain ⟨front', hfront, hcut⟩ := h.exists_front
  obtain rfl := List.append_cancel_right hfront
  have hsplit := hcut [] List.nil_prefix
  rw [List.append_nil] at hsplit
  rw [complete_eq_ok_iff, ofText, String.toList_ofList]
  exact ofChars_eq_finished_iff.mpr ⟨hsplit, rfl⟩

/-- Every text is read to its end or to an error. It is read to its end exactly if it consists of
blanks and of tokens that are each the longest lexeme at their place, and the end stands behind
them, at the length of the text. Otherwise the error is the one of the first place where no lexeme
can be read, and what stands before it consists of the tokens that have been read. -/
theorem split_into_longest_lexemes (s : String) :
    (∀ turns, s.length < turns → Cursor.readAll turns ⟨s.toList, 0⟩ [] =
        some ((ofText s).symbols, (ofText s).stop.error?)) ∧
      (∀ tokens length, (ofText s).complete = .ok (tokens, length) ↔
        Split 0 s.toList tokens [] ∧ length = s.length ∧
          (ofText s).symbols = tokens.map symbol ++ [(none, s.length)]) ∧
      ∀ e, (ofText s).complete = .error e ↔
        ∃ tokens front rest, s.toList = front ++ rest ∧ Split 0 s.toList tokens rest ∧
          Unreadable front.length rest e ∧ (ofText s).symbols = tokens.map symbol ∧
          (ofText (String.ofList front)).complete = .ok (tokens, front.length) := by
  refine ⟨fun turns hturns => ?_, fun tokens length => ?_, fun e => ?_⟩
  · rw [← String.length_toList] at hturns
    exact Cursor.readAll_eq hturns []
  · rw [complete_eq_ok_iff, ← String.length_toList]
    constructor
    · intro hread
      obtain ⟨hsplit, rfl⟩ := ofChars_eq_finished_iff.mp hread
      exact ⟨hsplit, rfl, by rw [hread]; rfl⟩
    · rintro ⟨hsplit, hlength, -⟩
      exact ofChars_eq_finished_iff.mpr ⟨hsplit, hlength⟩
  · rw [complete_eq_error_iff]
    constructor
    · rintro ⟨tokens, hread⟩
      obtain ⟨front, rest, hcs, hsplit, he⟩ := ofChars_eq_broken_iff.mp hread
      have hsymbols : (ofText s).symbols = tokens.map symbol := by
        rw [hread]
        exact List.append_nil _
      exact ⟨tokens, front, rest, hcs, hsplit, he, hsymbols, (hcs ▸ hsplit).complete_front⟩
    · rintro ⟨tokens, front, rest, hcs, hsplit, he, -⟩
      exact ⟨tokens, ofChars_eq_broken_iff.mpr ⟨front, rest, hcs, hsplit, he⟩⟩

/-- A second point starts another number, and two characters are one operator. Of two points neither
is a number, and what stands before them is read. -/
theorem split_into_longest_lexemes_points :
    "1.5.25 <=a1".length < 12 ∧
      Cursor.readAll 12 ⟨"1.5.25 <=a1".toList, 0⟩ [] =
        some ([(some (.number 1.5), 0), (some (.number 0.25), 3), (some (.operator .le), 7),
          (some (.cell "A1"), 9), (none, 11)], none) ∧
      Split 0 "1.5.25 <=a1".toList [⟨.number 1.5, 0⟩, ⟨.number 0.25, 3⟩, ⟨.operator .le, 7⟩,
        ⟨.cell "A1", 9⟩] [] ∧
      ∃ tokens front rest, "<>..".toList = front ++ rest ∧ Split 0 "<>..".toList tokens rest ∧
        Unreadable front.length rest (.unexpectedCharacter '.' 2) ∧
        (ofText (String.ofList front)).complete = .ok (tokens, front.length) := by
  have hscan : ofText "1.5.25 <=a1" = ⟨[⟨.number 1.5, 0⟩, ⟨.number 0.25, 3⟩, ⟨.operator .le, 7⟩,
      ⟨.cell "A1", 9⟩], .finished 11⟩ := by
    with_unfolding_all rfl
  have hlone : (ofText "<>..").complete = .error (.unexpectedCharacter '.' 2) := by
    with_unfolding_all rfl
  have hlength : "1.5.25 <=a1".length < 12 := by decide
  obtain ⟨hread, hwhole, -⟩ := split_into_longest_lexemes "1.5.25 <=a1"
  obtain ⟨-, -, hbroken⟩ := split_into_longest_lexemes "<>.."
  obtain ⟨tokens, front, rest, hcs, hsplit, he, -, hfront⟩ := (hbroken _).mp hlone
  refine ⟨hlength, ?_, ?_, tokens, front, rest, hcs, hsplit, he, hfront⟩
  · rw [hread 12 hlength, hscan]
    rfl
  · exact ((hwhole _ 11).mp (complete_eq_ok_iff.mpr hscan)).1

end Scan

end Recalc
