import Recalc.Proofs.Formula.Grammar
import Recalc.Proofs.Formula.Legibility

namespace Recalc

/-- Whether the place is one that a reference can name. -/
def Reference.Placed (r : Reference) : Prop :=
  r.address.row < Address.limit ∧ r.address.col < Address.limit

/-- Formulas whose leaves have a notation: texts without a quote, functions with a name in capitals
that is neither an address nor a truth value, references to places that have one, and numbers with
the property `p`. -/
inductive Expr.Writable (p : Float → Prop) : Expr → Prop
  | number {x : Float} (hx : p x) : Writable p (.number x)
  | text {s : String} (hs : '"' ∉ s.toList) : Writable p (.text s)
  | bool (b : Bool) : Writable p (.bool b)
  | ref {r : Reference} (hr : r.Placed) : Writable p (.ref r)
  | range {first last : Reference} (hfirst : first.Placed) (hlast : last.Placed) :
      Writable p (.range first last)
  | call {f : String} {args : List Expr} (hword : Scan.IsWord f.toList)
      (hname : Scan.classify f.toList = .name f) (hargs : ∀ arg ∈ args, Writable p arg) :
      Writable p (.call f args)
  | binary (op : Operator) {left right : Expr} (hleft : Writable p left)
      (hright : Writable p right) : Writable p (.binary op left right)
  | neg {operand : Expr} (h : Writable p operand) : Writable p (.neg operand)

namespace Lexeme

/-- No operator, unless it is a minus. -/
def MayStart (l : Lexeme) : Prop := ∀ op, l = .operator op → op = .sub

/-- Whether the second lexeme may stand right behind the first one. -/
def Adjoins (l l' : Lexeme) : Prop :=
  (l.isMark = true ∨ l'.isMark = true) ∧ ((∃ op, l = .operator op) → l'.MayStart)

end Lexeme

/-- The lexemes of an operand. -/
structure Joined (ls : List Lexeme) : Prop where
  ne_nil : ls ≠ []
  head : ∀ l ∈ ls.head?, l.MayStart
  last : ∀ l ∈ ls.getLast?, ∀ op, l ≠ .operator op
  chain : ls.IsChain Lexeme.Adjoins

namespace Joined

open Lexeme

variable {ls rs : List Lexeme} {l : Lexeme}

theorem single (hl : ∀ op, l ≠ .operator op) : Joined [l] where
  ne_nil := List.cons_ne_nil l []
  head := by
    rintro _ ⟨⟩ op rfl
    exact absurd rfl (hl op)
  last := by
    rintro _ ⟨⟩
    exact hl
  chain := List.isChain_singleton l

theorem head_append (h : Joined ls) (rs : List Lexeme) : ∀ l ∈ (ls ++ rs).head?, l.MayStart := by
  intro l hl
  rw [List.head?_append_of_ne_nil ls h.ne_nil] at hl
  exact h.head l hl

theorem adjoins_head (h : Joined ls) (hl : l.isMark = true) : ∀ l' ∈ ls.head?, l.Adjoins l' :=
  fun l' hl' => ⟨Or.inl hl, fun _ => h.head l' hl'⟩

theorem last_adjoins (h : Joined ls) (hl : l.isMark = true) : ∀ l' ∈ ls.getLast?, l'.Adjoins l :=
  fun l' hl' => ⟨Or.inr hl, fun ⟨op, hop⟩ => absurd hop (h.last l' hl' op)⟩

theorem cons (h : Joined ls) (hl : l.MayStart) (hadjoins : ∀ l' ∈ ls.head?, l.Adjoins l') :
    Joined (l :: ls) where
  ne_nil := List.cons_ne_nil l ls
  head := by
    rintro _ ⟨⟩
    exact hl
  last := by
    intro last hlast
    obtain ⟨next, rest, rfl⟩ := List.exists_cons_of_ne_nil h.ne_nil
    rw [List.getLast?_cons_cons] at hlast
    exact h.last last hlast
  chain := List.isChain_cons.mpr ⟨hadjoins, h.chain⟩

theorem between (h : Joined ls) (h' : Joined rs) (hl : l.isMark = true) :
    Joined (ls ++ l :: rs) where
  ne_nil := List.append_ne_nil_of_left_ne_nil h.ne_nil (l :: rs)
  head := h.head_append (l :: rs)
  last := by
    intro last hlast
    obtain ⟨next, rest, rfl⟩ := List.exists_cons_of_ne_nil h'.ne_nil
    rw [List.getLast?_append_of_ne_nil ls (List.cons_ne_nil l _), List.getLast?_cons_cons] at hlast
    exact h'.last last hlast
  chain := by
    have hrest : (l :: rs).IsChain Adjoins := List.isChain_cons.mpr ⟨h'.adjoins_head hl, h'.chain⟩
    refine List.isChain_append.mpr ⟨h.chain, hrest, ?_⟩
    rintro last hlast _ ⟨⟩
    exact h.last_adjoins hl last hlast

theorem neg (h : Joined ls) : Joined (.operator .sub :: ls) := by
  refine h.cons ?_ (h.adjoins_head rfl)
  rintro op ⟨⟩
  rfl

theorem leftParen (h : Joined ls) : Joined (.leftParen :: ls) :=
  h.cons (by rintro op ⟨⟩) (h.adjoins_head rfl)

theorem rightParen (h : Joined ls) : Joined (ls ++ [.rightParen]) where
  ne_nil := List.append_ne_nil_of_left_ne_nil h.ne_nil _
  head := h.head_append _
  last := by
    intro last hlast
    rw [List.getLast?_concat] at hlast
    cases hlast
    rintro op ⟨⟩
  chain := by
    refine List.isChain_append.mpr ⟨h.chain, List.isChain_singleton _, ?_⟩
    rintro last hlast _ ⟨⟩
    exact h.last_adjoins rfl last hlast

theorem arguments {lss : List (List Lexeme)} (h : ∀ ls ∈ lss, Joined ls) (hne : lss ≠ []) :
    Joined ([.comma].intercalate lss) := by
  induction lss with
  | nil => exact absurd rfl hne
  | cons ls rest ih =>
    have hls := h ls List.mem_cons_self
    cases rest with
    | nil =>
      rw [List.intercalate_singleton]
      exact hls
    | cons next rest =>
      rw [List.intercalate_cons_cons, List.append_assoc]
      have hrest := ih (fun ls hls => h ls (List.mem_cons_of_mem _ hls)) (List.cons_ne_nil next rest)
      exact hls.between hrest rfl

theorem call (f : String) {lss : List (List Lexeme)} (h : ∀ ls ∈ lss, Joined ls) :
    Joined (.name f :: .leftParen :: ([.comma].intercalate lss ++ [.rightParen])) := by
  have hparens : Joined (.leftParen :: ([.comma].intercalate lss ++ [.rightParen])) := by
    by_cases hne : lss = []
    · subst hne
      exact (single (by rintro op ⟨⟩)).leftParen
    · exact (arguments h hne).rightParen.leftParen
  refine hparens.cons (by rintro op ⟨⟩) ?_
  rintro _ ⟨⟩
  exact ⟨Or.inr rfl, by rintro ⟨op, ⟨⟩⟩⟩

end Joined

/-- What the grammar derives can be written without blanks. -/
theorem Derives.joined {n : Nat} {ls : List Lexeme} {e : Expr} (h : Derives n ls e) : Joined ls := by
  induction h with
  | weaken _ ih => exact ih
  | binary _ _ _ ihleft ihright => exact ihleft.between ihright rfl
  | neg _ ih => exact ih.neg
  | number | text | bool | ref => exact .single (by rintro op ⟨⟩)
  | range => exact (Joined.single (by rintro op ⟨⟩)).between (.single (by rintro op ⟨⟩)) rfl
  | call f _ ih =>
    refine .call f fun ls hls => ?_
    obtain ⟨arg, harg, rfl⟩ := List.mem_map.mp hls
    exact ih arg harg
  | group _ ih => exact ih.rightParen.leftParen

namespace Lexeme

variable {l l' : Lexeme} {rest : List Char}

theorem chars_of_isMark (h : l.isMark = true) :
    ∃ c tail, l.chars = c :: tail ∧ Scan.isWordChar c = false ∧ c ≠ '.' := by
  cases l with
  | operator op => cases op <;> exact ⟨_, _, rfl, rfl, by decide⟩
  | leftParen | rightParen | comma | colon => exact ⟨_, _, rfl, rfl, by decide⟩
  | number | text | bool | cell | name => cases h

/-- What follows an operator does not make another one of it. -/
theorem Legible.chars_of_mayStart (h : l.Legible Number.UnsignedOrInfinite) (hstart : l.MayStart) :
    ∃ c tail, l.chars = c :: tail ∧ c ≠ '=' ∧ c ≠ '>' := by
  have hne : ∀ c d, Scan.isWordChar c = true → Scan.isWordChar d = false → c ≠ d := by
    rintro c d hc hd rfl
    rw [hc] at hd
    cases hd
  cases h with
  | number h =>
    obtain ⟨hfinite | rfl, hsign⟩ := h
    · obtain ⟨whole, part, hpointed, htext, _⟩ := Number.canonical_eq hfinite hsign
      obtain ⟨c, digits, rfl⟩ := List.exists_cons_of_ne_nil hpointed.whole_ne_nil
      have hdigit : c.isDigit = true := hpointed.isDigit_whole c List.mem_cons_self
      have hc := Scan.isWordChar_of_isDigit hdigit
      exact ⟨c, _, htext, hne c '=' hc rfl, hne c '>' hc rfl⟩
    · exact ⟨'I', _, Scan.chars_infinity, by decide, by decide⟩
  | text h => exact ⟨'"', _, rfl, by decide, by decide⟩
  | word hword _ =>
    obtain ⟨c, tail, hchars, hc⟩ := hword.start
    have hc := Scan.isWordChar_of_isWordStart hc
    exact ⟨c, tail, hchars, hne c '=' hc rfl, hne c '>' hc rfl⟩
  | mark h =>
    cases l with
    | operator op =>
      obtain rfl := hstart op rfl
      exact ⟨'-', [], rfl, by decide, by decide⟩
    | leftParen | rightParen | comma | colon => exact ⟨_, _, rfl, by decide, by decide⟩
    | number | text | bool | cell | name => cases h

theorem Legible.not_extended (h' : l'.Legible Number.UnsignedOrInfinite)
    (hadjoins : l.Adjoins l') :
    ∃ c tail, l'.chars = c :: tail ∧ l.readBack.extendedBy c = false := by
  obtain ⟨hmark, hstart⟩ := hadjoins
  cases l with
  | operator op =>
    obtain ⟨c, tail, hchars, heq, hgt⟩ := h'.chars_of_mayStart (hstart ⟨op, rfl⟩)
    refine ⟨c, tail, hchars, ?_⟩
    cases op with
    | lt | gt => simp [readBack, extendedBy, heq, hgt]
    | _ => rfl
  | number x =>
    obtain ⟨c, tail, hchars, hword, hpoint⟩ := chars_of_isMark (hmark.resolve_left (by rintro ⟨⟩))
    refine ⟨c, tail, hchars, ?_⟩
    rw [readBack]
    split
    · simp only [Scan.isWordChar, Char.isAlphanum, Bool.or_eq_false_iff] at hword
      simp [extendedBy, hword.1.2, hpoint]
    · exact hword
  | bool | cell | name =>
    obtain ⟨c, tail, hchars, hword, _⟩ := chars_of_isMark (hmark.resolve_left (by rintro ⟨⟩))
    exact ⟨c, tail, hchars, hword⟩
  | text | leftParen | rightParen | comma | colon =>
    have hspells : Scan.Spells l'.chars l'.readBack [] := h'.spells (by simp)
    obtain ⟨c, tail, hchars, _⟩ := hspells
    exact ⟨c, tail, hchars, rfl⟩

theorem Legible.of_number {p : Float → Prop} {x : Float} (h : (Lexeme.number x).Legible p) : p x := by
  cases h with
  | number h => exact h
  | word _ hl =>
    -- A point extends a number, but no word.
    have hpoint := congrFun (Scan.extendedBy_classify (Lexeme.number x).chars) '.'
    rw [hl] at hpoint
    cases hpoint
  | mark h => cases h

theorem Legible.of_text {p : Float → Prop} {s : String} (h : (Lexeme.text s).Legible p) :
    '"' ∉ s.toList := by
  cases h with
  | text h => exact h
  | word _ hl =>
    -- A letter extends every word, but no text.
    have hletter := congrFun (Scan.extendedBy_classify (Lexeme.text s).chars) 'A'
    rw [hl] at hletter
    cases hletter
  | mark h => cases h

theorem Legible.of_name {p : Float → Prop} {f : String} (h : (Lexeme.name f).Legible p) :
    Scan.IsWord f.toList ∧ Scan.classify f.toList = .name f := by
  cases h with
  | word hword hl => exact ⟨hword, hl⟩
  | mark h => cases h

end Lexeme

namespace Scan

/-- The lexemes of a formula are read from their characters one after another. -/
theorem ofChars_of_chain {ls : List Lexeme} (h : ∀ l ∈ ls, l.Legible Number.UnsignedOrInfinite)
    (hchain : ls.IsChain Lexeme.Adjoins) (pos : Nat) :
    (ofChars pos (ls.flatMap Lexeme.chars)).tokens.map (·.lexeme) = ls.map Lexeme.readBack ∧
      ∃ length, (ofChars pos (ls.flatMap Lexeme.chars)).stop = .finished length := by
  induction ls generalizing pos with
  | nil =>
    rw [List.flatMap_nil, ofChars_nil]
    exact ⟨rfl, pos, rfl⟩
  | cons l ls ih =>
    have hl := h l List.mem_cons_self
    obtain ⟨hhead, htail⟩ := List.isChain_cons.mp hchain
    -- What comes behind starts with the first character of the next lexeme.
    have hend : ∀ c ∈ (ls.flatMap Lexeme.chars).head?, l.readBack.extendedBy c = false := by
      cases ls with
      | nil =>
        intro c hc
        cases hc
      | cons next rest =>
        have hnext := h next (List.mem_cons_of_mem l List.mem_cons_self)
        obtain ⟨c, tail, hchars, hextended⟩ := hnext.not_extended (hhead next rfl)
        rw [List.flatMap_cons, hchars]
        rintro _ ⟨⟩
        exact hextended
    obtain ⟨htokens, length, hstop⟩ :=
      ih (fun l' hl' => h l' (List.mem_cons_of_mem l hl')) htail (pos + l.chars.length)
    rw [List.flatMap_cons, ofChars_of_spells (hl.spells hend)]
    exact ⟨congrArg (l.readBack :: ·) htokens, length, hstop⟩

end Scan

namespace Reference

theorem decode_text {r : Reference} (h : r.Placed) : decode r.text = .ok r := by
  rw [decode, ofText?_text h.2 h.1]

theorem legible_text {p : Float → Prop} (r : Reference) :
    (Lexeme.cell r.text).Legible p := by
  have hcapital : r.parts.capital = r.parts := by
    have hletters : r.parts.letters.map Char.toUpper = r.parts.letters :=
      Column.map_toUpper_spell _
    rw [AddressText.capital, hletters]
  have hchars : (Lexeme.cell r.text).chars = r.parts.chars := by
    rw [chars_parts]
    exact String.toList_ofList
  refine .word ?_ ?_
  · rw [hchars]
    exact AddressText.isWord_chars r.wellFormed_parts
  · rw [hchars, AddressText.classify_chars r.wellFormed_parts, hcapital, chars_parts]
    rfl

theorem placed_of_decode {s : String} {r : Reference} (h : decode s = .ok r) : r.Placed := by
  unfold decode at h
  split at h
  next hread =>
    cases h
    obtain ⟨t, _, hr⟩ := Option.bind_eq_some_iff.mp hread
    unfold AddressText.reference? at hr
    split at hr
    next => cases hr
    next col hcol =>
      simp only at hr
      split at hr
      next => cases hr
      next hrow =>
        cases hr
        unfold Column.ofLetters? at hcol
        split at hcol
        next => cases hcol
        next hletters =>
          cases hcol
          simp only [Bool.or_eq_true, decide_eq_true_eq, not_or] at hletters
          have hlimit : 0 < Address.limit := by decide
          exact ⟨by simp only; omega, by simp only; omega⟩
  next => cases h

end Reference

namespace Expr

/-- The strength of an operation at the top, and 7 for what is no operation. -/
def level : Expr → Nat
  | binary op _ _ => op.strength
  | neg _ => 6
  | _ => 7

theorem argumentLexemes_eq (args : List Expr) :
    argumentLexemes args = [.comma].intercalate (args.map lexemes) := by
  induction args with
  | nil => rfl
  | cons arg rest ih =>
    cases rest with
    | nil => rw [argumentLexemes, List.map_singleton, List.intercalate_singleton]
    | cons next rest =>
      rw [argumentLexemes, ih]
      · simp only [List.map_cons, List.intercalate_cons_cons, List.append_assoc]
        rfl
      · exact List.cons_ne_nil next rest

theorem level_pos (e : Expr) : 1 ≤ e.level := by
  cases e with
  | binary op _ _ => exact op.strength_pos
  | _ => simp [level]

/-- Parentheses make an operand of every level. -/
theorem derives_parenthesize {n : Nat} {yes : Bool} {e : Expr} (h : Derives e.level e.lexemes e)
    (hn : n ≤ 7) (hlevel : yes = false → n ≤ e.level) :
    Derives n (parenthesize yes e.lexemes) e := by
  cases yes with
  | true => exact (Derives.group (h.mono e.level_pos)).mono hn
  | false => exact h.mono (hlevel rfl)

theorem le_level_of_not_needsParens {op : Operator} {onRight : Bool} {e : Expr}
    (h : e.needsParens op onRight = false) : op.strength + onRight.toNat ≤ e.level := by
  have hop := op.strength_le
  have hone : onRight.toNat ≤ 1 := onRight.toNat_le
  cases e with
  | binary inner _ _ =>
    simp only [needsParens, Bool.or_eq_false_iff, decide_eq_false_iff_not, Bool.and_eq_false_iff,
      beq_eq_false_iff_ne] at h
    simp only [level]
    obtain ⟨hle, rfl | hne⟩ := h
    · simp only [Bool.toNat_false]
      omega
    · omega
  | neg | number | text | bool | ref | range | call =>
    simp only [level]
    omega

theorem le_level_of_not_isBinary {e : Expr} (h : e.isBinary = false) : 6 ≤ e.level := by
  cases e with
  | binary => cases h
  | _ => simp [level]

/-- The grammar derives a formula from the lexemes that are written for it. -/
theorem Writable.derives {p : Float → Prop} {e : Expr} (h : e.Writable p) :
    Derives e.level e.lexemes e := by
  induction h with
  | number hx => rw [lexemes]; exact .number _
  | text hs => rw [lexemes]; exact .text _
  | bool b => rw [lexemes]; exact .bool b
  | ref hr => rw [lexemes]; exact .ref (Reference.decode_text hr)
  | range hfirst hlast =>
    rw [lexemes]
    exact .range (Reference.decode_text hfirst) (Reference.decode_text hlast)
  | @call f args hword hname hargs ih =>
    have hderives : ∀ arg ∈ args.map fun e => (e.lexemes, e), Derives 1 arg.1 arg.2 := by
      intro arg harg
      obtain ⟨e, he, rfl⟩ := List.mem_map.mp harg
      exact (ih e he).mono e.level_pos
    have hlexemes : (args.map fun e => (e.lexemes, e)).map (·.1) = args.map lexemes := by
      rw [List.map_map]
      rfl
    have hargs : (args.map fun e => (e.lexemes, e)).map (·.2) = args := by
      rw [List.map_map]
      exact List.map_id args
    have hcall := Derives.call f hderives
    rw [hlexemes, hargs] at hcall
    rw [lexemes, argumentLexemes_eq]
    exact hcall
  | @binary op left right hleft hright ihleft ihright =>
    have hle := op.strength_le
    rw [lexemes]
    show Derives op.strength _ _
    exact .binary (Operator.mem_ofLevel_iff.mpr rfl)
      (derives_parenthesize ihleft (by omega) fun h => le_level_of_not_needsParens h)
      (derives_parenthesize ihright (by omega) fun h => le_level_of_not_needsParens h)
  | neg h ih =>
    rw [lexemes]
    exact .neg (derives_parenthesize ih (by omega) le_level_of_not_isBinary)

theorem legible_parenthesize {p : Float → Prop} {yes : Bool} {ls : List Lexeme}
    (h : ∀ l ∈ ls, l.Legible p) : ∀ l ∈ parenthesize yes ls, l.Legible p := by
  cases yes with
  | true => exact List.forall_mem_cons.mpr ⟨.mark rfl, forall_mem_concat h (.mark rfl)⟩
  | false => exact h

theorem legible_bool {p : Float → Prop} (b : Bool) : (Lexeme.bool b).Legible p := by
  have hword : ∀ c tail, Scan.isWordStart c = true → (c :: tail).all Scan.isWordChar = true →
      Scan.IsWord (c :: tail) := fun c tail hc hall => ⟨⟨c, tail, rfl, hc⟩, List.all_eq_true.mp hall⟩
  cases b with
  | true => exact .word (hword 'T' _ rfl rfl) rfl
  | false => exact .word (hword 'F' _ rfl rfl) rfl

/-- What is written for a formula can be read, lexeme by lexeme. -/
theorem Writable.legible {p : Float → Prop} {e : Expr} (h : e.Writable p) :
    ∀ l ∈ e.lexemes, l.Legible p := by
  induction h with
  | number hx =>
    rw [lexemes]
    exact List.forall_mem_singleton.mpr (.number hx)
  | text hs =>
    rw [lexemes]
    exact List.forall_mem_singleton.mpr (.text hs)
  | bool b =>
    rw [lexemes]
    exact List.forall_mem_singleton.mpr (legible_bool b)
  | @ref r hr =>
    rw [lexemes]
    exact List.forall_mem_singleton.mpr (Reference.legible_text r)
  | @range first last hfirst hlast =>
    rw [lexemes]
    exact List.forall_mem_cons.mpr ⟨Reference.legible_text first, List.forall_mem_cons.mpr
      ⟨.mark rfl, List.forall_mem_singleton.mpr (Reference.legible_text last)⟩⟩
  | @call f args hword hname hargs ih =>
    have hargs : ∀ l ∈ [Lexeme.comma].intercalate (args.map lexemes), l.Legible p := by
      intro l hl
      rcases mem_intercalate_comma hl with rfl | ⟨ls, hls, hl⟩
      · exact .mark rfl
      · obtain ⟨arg, harg, rfl⟩ := List.mem_map.mp hls
        exact ih arg harg l hl
    rw [lexemes, argumentLexemes_eq]
    exact List.forall_mem_cons.mpr ⟨.word hword hname, List.forall_mem_cons.mpr
      ⟨.mark rfl, forall_mem_concat hargs (.mark rfl)⟩⟩
  | @binary op left right hleft hright ihleft ihright =>
    rw [lexemes]
    exact List.forall_mem_append.mpr ⟨legible_parenthesize ihleft,
      List.forall_mem_cons.mpr ⟨.mark rfl, legible_parenthesize ihright⟩⟩
  | neg h ih =>
    rw [lexemes]
    exact List.forall_mem_cons.mpr ⟨.mark rfl, legible_parenthesize ih⟩

/-- What is written for a formula starts with no equality sign. -/
theorem formulaBody_toText {e : Expr} (h : e.Writable Number.UnsignedOrInfinite) :
    formulaBody e.toText = e.toText := by
  have hjoined := h.derives.joined
  have hlegible := h.legible
  obtain ⟨l, ls, hlexemes⟩ := List.exists_cons_of_ne_nil hjoined.ne_nil
  have hstart := hjoined.head
  rw [hlexemes] at hlegible hstart
  obtain ⟨c, tail, hchars, hne, _⟩ :=
    (hlegible l List.mem_cons_self).chars_of_mayStart (hstart l rfl)
  unfold formulaBody
  split
  next cs htext =>
    rw [toText, String.toList_ofList, hlexemes, List.flatMap_cons, hchars] at htext
    exact absurd (List.cons.inj htext).1 hne
  next => rfl

/-- From the text of a formula its lexemes are read, and words for infinite numbers. -/
theorem read_toText_eq_ok_iff {e e' : Expr} (h : e.Writable Number.UnsignedOrInfinite) :
    Expr.read e.toText = .ok e' ↔ Derives 1 (e.lexemes.map Lexeme.readBack) e' := by
  obtain ⟨htokens, length, hstop⟩ := Scan.ofChars_of_chain h.legible h.derives.joined.chain 0
  have hscan : Scan.ofText e.toText = Scan.ofChars 0 (e.lexemes.flatMap Lexeme.chars) := by
    rw [Scan.ofText, toText, String.toList_ofList]
  rw [Expr.read, formulaBody_toText h, hscan, Reader.ofScan, Reader.run_eq_ok_iff, htokens, hstop,
    ← Reader.steps_finish_iff]
  simp

theorem Writable.imp {p q : Float → Prop} {e : Expr} (h : e.Writable p) (hpq : ∀ x, p x → q x) :
    e.Writable q := by
  induction h with
  | number hx => exact .number (hpq _ hx)
  | text hs => exact .text hs
  | bool b => exact .bool b
  | ref hr => exact .ref hr
  | range hfirst hlast => exact .range hfirst hlast
  | call hword hname _ ih => exact .call hword hname ih
  | binary op _ _ ihleft ihright => exact .binary op ihleft ihright
  | neg _ ih => exact .neg ih

/-- A formula is read back from its text. -/
theorem read_toText {e : Expr} (h : e.Writable Number.Unsigned) : Expr.read e.toText = .ok e := by
  have hlexemes : e.lexemes.map Lexeme.readBack = e.lexemes :=
    (List.map_congr_left fun l hl => (h.legible l hl).readBack_eq).trans (List.map_id _)
  rw [read_toText_eq_ok_iff (h.imp fun x hx => ⟨Or.inl hx.1, hx.2⟩), hlexemes]
  exact h.derives.mono e.level_pos

end Expr

theorem mem_intercalate_of_mem {α : Type} {sep x : List α} {xs : List (List α)} {a : α}
    (hx : x ∈ xs) (ha : a ∈ x) : a ∈ sep.intercalate xs := by
  induction xs with
  | nil => cases hx
  | cons y ys ih =>
    cases ys with
    | nil =>
      obtain rfl := List.mem_singleton.mp hx
      rwa [List.intercalate_singleton]
    | cons z zs =>
      rw [List.intercalate_cons_cons]
      rcases List.mem_cons.mp hx with rfl | hx
      · exact List.mem_append_left _ (List.mem_append_left _ ha)
      · exact List.mem_append_right _ (ih hx)

/-- What is derived from legible lexemes can be written. -/
theorem Derives.writable {p : Float → Prop} {n : Nat} {ls : List Lexeme} {e : Expr}
    (h : Derives n ls e) (hlegible : ∀ l ∈ ls, l.Legible p) : e.Writable p := by
  induction h with
  | weaken _ ih => exact ih hlegible
  | @binary n op ls rs left right _ _ _ ihleft ihright =>
    obtain ⟨hleft, hright⟩ := List.forall_mem_append.mp hlegible
    exact .binary op (ihleft hleft) (ihright (List.forall_mem_cons.mp hright).2)
  | neg _ ih => exact .neg (ih (List.forall_mem_cons.mp hlegible).2)
  | number x => exact .number (Lexeme.Legible.of_number (hlegible _ List.mem_cons_self))
  | text s => exact .text (Lexeme.Legible.of_text (hlegible _ List.mem_cons_self))
  | bool b => exact .bool b
  | ref hr => exact .ref (Reference.placed_of_decode hr)
  | range hfirst hlast =>
    exact .range (Reference.placed_of_decode hfirst) (Reference.placed_of_decode hlast)
  | @call f args hargs ih =>
    obtain ⟨hname, hrest⟩ := List.forall_mem_cons.mp hlegible
    obtain ⟨_, hrest⟩ := List.forall_mem_cons.mp hrest
    obtain ⟨hargs, _⟩ := List.forall_mem_append.mp hrest
    obtain ⟨hword, hclass⟩ := Lexeme.Legible.of_name hname
    refine .call hword hclass fun e he => ?_
    obtain ⟨arg, harg, rfl⟩ := List.mem_map.mp he
    refine ih arg harg fun l hl => hargs l ?_
    exact mem_intercalate_of_mem (List.mem_map_of_mem harg) hl
  | group _ ih =>
    obtain ⟨_, hinner⟩ := List.forall_mem_cons.mp hlegible
    exact ih (List.forall_mem_append.mp hinner).1

namespace Expr

/-- Formulas are read back from their text, with the marks of their references and with the corners
of their ranges in the order in which they stand. Only such formulas are read, except that digits
may be too many for a finite number. -/
theorem read_toText_and_writable_of_read :
    (∀ e : Expr, e.Writable Number.Unsigned → Expr.read e.toText = .ok e) ∧
      ∀ source e, Expr.read source = .ok e → e.Writable Number.UnsignedOrInfinite := by
  refine ⟨fun e h => read_toText h, fun source e h => ?_⟩
  obtain ⟨length, s, _, hsteps, hfinish⟩ := Reader.run_eq_ok_iff.mp h
  have hderives := Reader.steps_finish_iff.mp ⟨s, hsteps, hfinish⟩
  refine hderives.writable fun l hl => ?_
  obtain ⟨t, ht, rfl⟩ := List.mem_map.mp hl
  exact Scan.legible_ofChars 0 _ t ht

/-- The formula `-SUM($B2:A$1,"a,b")`. -/
def total : Expr :=
  .neg (.call "SUM" [.range ⟨⟨1, 1⟩, ⟨true, false⟩⟩ ⟨⟨0, 0⟩, ⟨false, true⟩⟩, .text "a,b"])

/-- The formula `1-(2--SUM($B2:A$1,"a,b"))`. -/
def nested : Expr := .binary .sub (.number 1) (.binary .sub (.number 2) total)

theorem nested_writable : nested.Writable Number.Unsigned := by
  have hword : Scan.IsWord "SUM".toList := ⟨⟨'S', _, rfl, rfl⟩, List.all_eq_true.mp rfl⟩
  have hrange : (range ⟨⟨1, 1⟩, ⟨true, false⟩⟩ ⟨⟨0, 0⟩, ⟨false, true⟩⟩).Writable
      Number.Unsigned := .range ⟨by decide, by decide⟩ ⟨by decide, by decide⟩
  have htotal : total.Writable Number.Unsigned := .neg (.call hword rfl (List.forall_mem_cons.mpr
    ⟨hrange, List.forall_mem_singleton.mpr (.text (by decide))⟩))
  exact .binary .sub (.number ⟨rfl, rfl⟩) (.binary .sub (.number ⟨rfl, rfl⟩) htotal)

theorem read_toText_and_writable_of_read_nested :
    nested.Writable Number.Unsigned ∧ Expr.read nested.toText = .ok nested ∧
      Expr.read "= - sum($b2:a$1, \"a,b\")" = .ok total ∧
        total.Writable Number.UnsignedOrInfinite := by
  have hread : Expr.read "= - sum($b2:a$1, \"a,b\")" = .ok total := by with_unfolding_all rfl
  exact ⟨nested_writable, read_toText_and_writable_of_read.1 nested nested_writable, hread,
    read_toText_and_writable_of_read.2 _ total hread⟩

end Expr

end Recalc
