import Recalc.Proofs.Formula.Legibility

namespace Recalc

namespace Scan

variable {cs rest later later' : List Char} {c : Char} {l : Lexeme} {n pos : Nat}

/-- What stands behind a lexeme starts as before, or a blank or the end sets it off. -/
def SetOff (later later' : List Char) : Prop :=
  later'.head? = later.head? ∨ ∀ c ∈ later'.head?, Text.isBlank c = true

theorem SetOff.forall_head? {p : Char → Prop} (h : SetOff later later')
    (hblank : ∀ c, Text.isBlank c = true → p c) (hlater : ∀ c ∈ later.head?, p c) :
    ∀ c ∈ later'.head?, p c := by
  rcases h with hsame | hset
  · rw [hsame]
    exact hlater
  · exact fun c hc => hblank c (hset c hc)

/-- The lexeme `l` is read at the start of `c :: rest`, and also from its own characters with
whatever does not go on with them. -/
def Separable (c : Char) (rest : List Char) (l : Lexeme) : Prop :=
  ∃ tail later, rest = tail ++ later ∧
    ∀ later', SetOff later later' → lexeme? c (tail ++ later') = some (l, tail.length + 1)

theorem isWordChar_of_isBlank (h : Text.isBlank c = true) : isWordChar c = false := by
  rw [Bool.eq_false_iff]
  intro hword
  rw [not_isBlank_of_isWordChar hword] at h
  cases h

theorem isDigit_of_isBlank (h : Text.isBlank c = true) : c.isDigit = false := by
  rw [Bool.eq_false_iff]
  intro hdigit
  rw [not_isBlank_of_isWordChar (isWordChar_of_isDigit hdigit)] at h
  cases h

theorem ne_of_isBlank {d : Char} (h : Text.isBlank c = true) (hd : Text.isBlank d = false) :
    c ≠ d := by
  rintro rfl
  rw [hd] at h
  cases h

/-- No blank belongs to a lexeme that stands before it. -/
theorem extendedBy_of_isBlank (l : Lexeme) (h : Text.isBlank c = true) :
    l.extendedBy c = false := by
  have hword := isWordChar_of_isBlank h
  have hne := @ne_of_isBlank c
  cases l with
  | number =>
    have hdigit := isDigit_of_isBlank h
    simp [Lexeme.extendedBy, hdigit, hne h (d := '.') rfl]
  | bool | cell | name => exact hword
  | text | leftParen | rightParen | comma | colon => rfl
  | operator op =>
    cases op with
    | lt => simp [Lexeme.extendedBy, hne h (d := '>') rfl, hne h (d := '=') rfl]
    | gt => simp [Lexeme.extendedBy, hne h (d := '=') rfl]
    | _ => rfl

/-- A number is read from its own characters, whatever it is that does not go on with it. -/
theorem exists_number? (h : number? cs = some (l, n)) :
    ∃ chars later, cs = chars ++ later ∧
      ∀ later', SetOff later later' → number? (chars ++ later') = some (l, chars.length) := by
  rcases number?_cases h with ⟨digits, later, rfl, hdigits, hend, rfl, _⟩ |
    ⟨whole, part, later, rfl, hne, hdigits, hend, rfl, _⟩
  · refine ⟨digits, later, rfl, fun later' hset => number?_whole hdigits (hset.forall_head? ?_ hend)⟩
    exact fun c hc => ⟨isDigit_of_isBlank hc, ne_of_isBlank hc rfl⟩
  · obtain ⟨hwhole, hpart⟩ := List.forall_mem_append.mp hdigits
    exact ⟨_, later, rfl, fun later' hset => number?_pointed hne hwhole hpart
      (hset.forall_head? (fun c => isDigit_of_isBlank) hend)⟩

theorem Spells.lexeme?_eq {tail : List Char} (h : Spells (c :: tail) l rest) :
    lexeme? c (tail ++ rest) = some (l, tail.length + 1) := by
  obtain ⟨_, _, heq, _, hlexeme⟩ := h
  obtain ⟨rfl, rfl⟩ := List.cons.inj heq
  exact hlexeme

theorem lexeme?_mark {tail : List Char} (hl : l.isMark = true) (hchars : l.chars = c :: tail)
    (hlater : ∀ d ∈ later.head?, l.extendedBy d = false) (hset : SetOff later later') :
    lexeme? c (tail ++ later') = some (l, tail.length + 1) := by
  have hspells := spells_mark hl (hset.forall_head? (fun d => extendedBy_of_isBlank l) hlater)
  rw [hchars] at hspells
  exact hspells.lexeme?_eq

theorem separable_mark (hc : c ∈ markStarts) (hquote : c ≠ '"')
    (h : lexeme? c rest = some (l, n)) : Separable c rest l := by
  obtain ⟨mark, later, hmark, hchars, hlater⟩ := exists_mark hc hquote rest
  rw [lexeme?_of_mark hmark hchars hlater] at h
  cases h
  obtain ⟨d, tail, hd, -⟩ := spells_mark hmark hlater
  rw [hd, List.cons_append] at hchars
  obtain ⟨rfl, rfl⟩ := List.cons.inj hchars
  exact ⟨tail, later, rfl, fun later' => lexeme?_mark hmark hd hlater⟩

theorem separable_quoted? (h : quoted? rest = some (l, n)) : Separable '"' rest l := by
  obtain ⟨inner, later, rfl, hinner, rfl, _⟩ := quoted?_cases h
  refine ⟨inner ++ ['"'], later, ?_, fun later' _ => (spells_quoted hinner later').lexeme?_eq⟩
  rw [List.append_assoc, List.singleton_append]

theorem separable_word (h : isWordStart c = true) (rest : List Char) :
    Separable c rest (classify ((c :: rest).takeWhile isWordChar)) := by
  have hword := isWord_takeWhile h rest
  rw [List.takeWhile_cons, if_pos (isWordChar_of_isWordStart h)] at hword ⊢
  refine ⟨rest.takeWhile isWordChar, rest.dropWhile isWordChar,
    List.takeWhile_append_dropWhile.symm, fun later' hset => ?_⟩
  exact (hword.spells (hset.forall_head? (fun d => isWordChar_of_isBlank)
    (not_of_mem_head?_dropWhile _ rest))).lexeme?_eq

theorem number?_pos (hc : (c.isDigit || c == '.') = true)
    (h : number? (c :: rest) = some (l, n)) : 0 < n := by
  simp only [number?] at h
  split at h
  next =>
    split at h
    next => cases h
    next =>
      cases h
      omega
  next hnone =>
    cases h
    cases hdigit : c.isDigit with
    | true => simp [hdigit]
    | false =>
      obtain rfl : c = '.' := by simpa [hdigit] using hc
      exact (hnone rest rfl).elim

theorem separable_number (hc : (c.isDigit || c == '.') = true) (hmark : c ∉ markStarts)
    (h : number? (c :: rest) = some (l, n)) : Separable c rest l := by
  obtain ⟨chars, later, hcs, hread⟩ := exists_number? h
  cases chars with
  | nil =>
    -- Its first character at least belongs to the number.
    have hnil := hread later (.inl rfl)
    rw [← hcs, h] at hnil
    cases hnil
    exact absurd (number?_pos hc h) (Nat.lt_irrefl 0)
  | cons d tail =>
    obtain ⟨rfl, hrest⟩ := List.cons.inj hcs
    refine ⟨tail, later, hrest, fun later' hset => ?_⟩
    rw [lexeme?_of_not_mem_markStarts hmark, if_pos hc]
    exact hread later' hset

theorem separable_lexeme? (h : lexeme? c rest = some (l, n)) : Separable c rest l := by
  by_cases hquote : c = '"'
  · subst hquote
    exact separable_quoted? h
  by_cases hmark : c ∈ markStarts
  · exact separable_mark hmark hquote h
  rw [lexeme?_of_not_mem_markStarts hmark] at h
  split at h
  next hnumber => exact separable_number hnumber hmark h
  next =>
    split at h
    next hword =>
      cases h
      exact separable_word hword rest
    next => cases h

/-- What is read if the tokens `before` stand in front. -/
def behind (before : List Token) (s : Scan) : Scan := ⟨before ++ s.tokens, s.stop⟩

def symbol (t : Token) : Option Lexeme × Nat := (some t.lexeme, t.pos)

/-- The lexemes of a text with their places. The end of the text stands behind them as `none`, if it
is reached. -/
def symbols (s : Scan) : List (Option Lexeme × Nat) :=
  s.tokens.map symbol ++
    match s.stop with
    | .finished pos => [(none, pos)]
    | .broken _ => []

theorem behind_nil (s : Scan) : s.behind [] = s := rfl

theorem eq_behind_of_cons {t t' : Token} {before : List Token} {s s' : Scan}
    (h : s.behind [t] = s'.behind (t' :: before)) : t = t' ∧ s = s'.behind before := by
  obtain ⟨tokens, stop⟩ := s
  obtain ⟨htokens, hstop⟩ := Scan.mk.inj h
  obtain ⟨ht, hbehind⟩ := List.cons.inj htokens
  exact ⟨ht, congrArg₂ Scan.mk hbehind hstop⟩

theorem setOff_append {front : List Char} (hblank : ∀ c ∈ later'.head?, Text.isBlank c = true) :
    SetOff (front ++ later) (front ++ later') := by
  cases front with
  | nil => exact .inr hblank
  | cons c front => exact .inl rfl

/-- A text may be cut where a token starts or where it ends, and go on with a blank there. -/
theorem exists_front {before : List Token} {later : Scan} {symbol : Option Lexeme} {place : Nat}
    {after : List (Option Lexeme × Nat)} (h : ofChars pos cs = later.behind before)
    (hlater : later.symbols = (symbol, place) :: after) :
    ∃ front rest, cs = front ++ rest ∧ place = pos + front.length ∧ ofChars place rest = later ∧
      ∀ rest', (∀ c ∈ rest'.head?, Text.isBlank c = true) →
        ofChars pos (front ++ rest') = (ofChars place rest').behind before := by
  induction pos, cs using ofChars.induct generalizing before with
  | case1 pos =>
    rw [ofChars_nil] at h
    obtain ⟨tokens, stop⟩ := later
    obtain ⟨hbefore, hstop⟩ := Scan.mk.inj h
    obtain ⟨rfl, rfl⟩ := List.append_eq_nil_iff.mp hbefore.symm
    obtain rfl : .finished pos = stop := hstop
    cases hlater
    exact ⟨[], [], rfl, rfl, ofChars_nil place, fun rest' _ => rfl⟩
  | case2 pos c rest hblank ih =>
    rw [ofChars_cons, if_pos hblank] at h
    obtain ⟨front, rest, rfl, rfl, hrest, hcut⟩ := ih h
    refine ⟨c :: front, rest, rfl, ?_, hrest, fun rest' hrest' => ?_⟩
    · rw [List.length_cons]
      omega
    · rw [List.cons_append, ofChars_cons, if_pos hblank]
      exact hcut rest' hrest'
  | case3 pos c rest hblank hnone =>
    rw [ofChars_cons, if_neg hblank, hnone] at h
    obtain ⟨tokens, stop⟩ := later
    obtain ⟨hbefore, hstop⟩ := Scan.mk.inj h
    obtain ⟨_, rfl⟩ := List.append_eq_nil_iff.mp hbefore.symm
    obtain rfl : .broken (refusal c pos) = stop := hstop
    cases hlater
  | case4 pos c rest hblank l n hl ih =>
    cases before with
    | nil =>
      rw [behind_nil] at h
      have hread := h
      rw [ofChars_cons, if_neg hblank, hl] at hread
      subst hread
      obtain ⟨hsymbol, _⟩ := List.cons.inj hlater
      obtain ⟨_, rfl⟩ := Prod.mk.inj hsymbol
      exact ⟨[], c :: rest, rfl, rfl, h, fun rest' _ => rfl⟩
    | cons t before =>
      obtain ⟨tail, next, rfl, hread⟩ := separable_lexeme? hl
      have hspells : ∀ next', SetOff next next' → Spells (c :: tail) l next' :=
        fun next' hset => ⟨c, tail, rfl, Bool.eq_false_iff.mpr hblank, hread next' hset⟩
      have hn : n = tail.length + 1 := by
        have hsame := hread next (.inl rfl)
        rw [hl] at hsame
        exact (Prod.mk.inj (Option.some.inj hsame)).2
      have hplace : pos + 1 + (n - 1) = pos + (c :: tail).length := by
        rw [hn, List.length_cons]
        omega
      have hdrop : (tail ++ next).drop (n - 1) = next := by
        rw [hn, Nat.add_sub_cancel, List.drop_left]
      rw [hplace, hdrop] at ih
      rw [← List.cons_append, ofChars_of_spells (hspells next (.inl rfl))] at h
      obtain ⟨rfl, hnext⟩ := eq_behind_of_cons h
      obtain ⟨front, rest, rfl, rfl, hrest, hcut⟩ := ih hnext
      refine ⟨c :: tail ++ front, rest, by simp, ?_, hrest, fun rest' hrest' => ?_⟩
      · rw [List.length_append]
        omega
      · rw [List.append_assoc, ofChars_of_spells (hspells _ (setOff_append hrest')),
          hcut rest' hrest']
        rfl

end Scan

end Recalc
