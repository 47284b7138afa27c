import Recalc.Csv.Import
import Recalc.Evaluation.Basic
import Recalc.Proofs.Csv.Quoting
import Recalc.Proofs.Formula.Scanning
import Recalc.Proofs.Number.ReadBack

namespace Recalc

namespace Csv

open Decimal

variable {f : String} {fs : List String} {cs whole part : List Char} {x : Float}

/-- No blanks stand around the characters. -/
def Trimmed (cs : List Char) : Prop :=
  (∀ c ∈ cs.head?, Text.isBlank c = false) ∧ ∀ c ∈ cs.getLast?, Text.isBlank c = false

theorem dropWhile_isBlank (h : ∀ c ∈ cs.head?, Text.isBlank c = false) :
    cs.dropWhile Text.isBlank = cs := by
  cases cs with
  | nil => rfl
  | cons c cs =>
    have hc : Text.isBlank c = false := h c rfl
    rw [List.dropWhile_cons_of_neg (by simp [hc])]

theorem Trimmed.stripBlanks_eq (h : Trimmed cs) : Text.stripBlanks cs = cs := by
  have hlast : ∀ c ∈ cs.reverse.head?, Text.isBlank c = false := by
    rw [List.head?_reverse]
    exact h.2
  rw [Text.stripBlanks, dropWhile_isBlank h.1, dropWhile_isBlank hlast, List.reverse_reverse]

theorem Trimmed.readBack_eq (h : Trimmed f.toList) : readBack f = f := by
  rw [readBack, h.stripBlanks_eq, String.ofList_toList, ite_self]

theorem not_isBlank_of_dropWhile_eq (h : cs.dropWhile Text.isBlank = cs) :
    ∀ c ∈ cs.head?, Text.isBlank c = false := by
  intro c hc
  have hhead := List.head?_dropWhile_not Text.isBlank cs
  rwa [h, Option.mem_def.mp hc] at hhead

/-- Characters stay as they are without the blanks around them only if there are none. -/
theorem stripBlanks_eq_iff : Text.stripBlanks cs = cs ↔ Trimmed cs := by
  refine ⟨fun h => ?_, Trimmed.stripBlanks_eq⟩
  have hlength := congrArg List.length h
  have hback := (List.dropWhile_suffix (l := (cs.dropWhile Text.isBlank).reverse)
    Text.isBlank).length_le
  rw [Text.stripBlanks, List.length_reverse] at hlength
  rw [List.length_reverse] at hback
  have hfront : cs.dropWhile Text.isBlank = cs :=
    (List.dropWhile_suffix Text.isBlank).eq_of_length_le (by omega)
  refine ⟨not_isBlank_of_dropWhile_eq hfront, ?_⟩
  rw [← List.head?_reverse]
  refine not_isBlank_of_dropWhile_eq ?_
  rw [Text.stripBlanks, hfront] at h
  rw [← List.reverse_reverse (List.dropWhile _ _), h]

theorem stripBlanks_isPrefix (cs : List Char) : Text.stripBlanks cs <+: cs.dropWhile Text.isBlank := by
  rw [Text.stripBlanks, ← List.reverse_suffix, List.reverse_reverse]
  exact List.dropWhile_suffix Text.isBlank

theorem length_stripBlanks_le (cs : List Char) : (Text.stripBlanks cs).length ≤ cs.length :=
  (stripBlanks_isPrefix cs).length_le.trans (List.dropWhile_suffix Text.isBlank).length_le

theorem trimmed_stripBlanks (cs : List Char) : Trimmed (Text.stripBlanks cs) := by
  constructor
  · intro c hc
    have hfront := List.head?_dropWhile_not Text.isBlank cs
    obtain ⟨rest, hrest⟩ := stripBlanks_isPrefix cs
    rwa [← hrest, List.head?_append, Option.mem_def.mp hc] at hfront
  · intro c hc
    have hback := List.head?_dropWhile_not Text.isBlank (cs.dropWhile Text.isBlank).reverse
    rw [Text.stripBlanks, List.getLast?_reverse] at hc
    rwa [Option.mem_def.mp hc] at hback

theorem readBack_eq_iff : readBack f = f ↔ needsQuotes f.toList = true ∨ Trimmed f.toList := by
  rw [readBack, ← stripBlanks_eq_iff]
  cases needsQuotes f.toList with
  | true => simp
  | false =>
    rw [if_neg Bool.false_ne_true, ← String.toList_inj, String.toList_ofList]
    simp

theorem needsQuotes_iff (hfeed : '\n' ∉ cs) (hreturn : '\r' ∉ cs) :
    needsQuotes cs = true ↔ ',' ∈ cs ∨ '"' ∈ cs := by
  simp only [needsQuotes, List.any_eq_true, Bool.or_eq_true, beq_iff_eq]
  grind

/-- Fields that fill one line are read back from it, but those that needed no quotes lose the blanks
around them. So all of them are read as they were if each has a comma, a quote, or no blanks around
it. -/
theorem fields?_joined_of_plain (hne : fs ≠ [])
    (hplain : ∀ f ∈ fs, '\n' ∉ f.toList ∧ '\r' ∉ f.toList) :
    fields? (joined fs) = some (fs.map fun f =>
        if ',' ∈ f.toList ∨ '"' ∈ f.toList then f
        else String.ofList (Text.stripBlanks f.toList)) ∧
      (fields? (joined fs) = some fs ↔
        ∀ f ∈ fs, ',' ∈ f.toList ∨ '"' ∈ f.toList ∨ Trimmed f.toList) := by
  have hquotes : ∀ f ∈ fs, (needsQuotes f.toList = true ↔ ',' ∈ f.toList ∨ '"' ∈ f.toList) :=
    fun f hf => needsQuotes_iff (hplain f hf).1 (hplain f hf).2
  rw [fields?_joined hne, Option.some.injEq, Option.some.injEq]
  constructor
  · refine List.map_congr_left fun f hf => ?_
    simp only [readBack, hquotes f hf]
  · calc fs.map readBack = fs ↔ fs.map readBack = fs.map id := by rw [List.map_id]
      _ ↔ ∀ f ∈ fs, readBack f = f := List.map_inj_left
      _ ↔ ∀ f ∈ fs, ',' ∈ f.toList ∨ '"' ∈ f.toList ∨ Trimmed f.toList :=
        forall₂_congr fun f hf => by rw [readBack_eq_iff, hquotes f hf, or_assoc]

/-- A field without quotes loses the blank before it. -/
theorem fields?_joined_blank : fields? (joined [" a"]) ≠ some [" a"] := by
  have hread : fields? (joined [" a"]) = some ["a"] := rfl
  rw [hread]
  decide

/-- A quote and a comma keep the blanks around them, and blanks inside of a field stay. -/
theorem fields?_joined_of_plain_pair :
    (∀ f ∈ ["a b", " \","], '\n' ∉ f.toList ∧ '\r' ∉ f.toList) ∧
      fields? (joined ["a b", " \","]) = some ["a b", " \","] := by
  have hplain : ∀ f ∈ ["a b", " \","], '\n' ∉ f.toList ∧ '\r' ∉ f.toList := by decide
  refine ⟨hplain, (fields?_joined_of_plain (by simp) hplain).2.mpr ?_⟩
  intro f hf
  rcases List.mem_pair.mp hf with rfl | rfl
  · exact Or.inr (Or.inr ⟨by rintro _ ⟨⟩; rfl, by rintro _ ⟨⟩; rfl⟩)
  · exact Or.inl (by decide)

/-- The cell that a field gives, if it is not empty. -/
def fieldCell? (f : String) : Option Cell := if f = "" then none else some (cellOf f)

/-- A text that is told from all other values when it is read. One that begins with a zero and
another digit is no number to the reader. -/
structure KeptText (t : String) : Prop where
  ne_empty : t ≠ ""
  not_mem : '\n' ∉ t.toList
  trimmed : Trimmed t.toList
  no_formula : t.toList.head? ≠ some '='
  no_bool : ∀ b, Text.lowerAscii t ≠ Value.boolText b
  no_number : Number.read? t.toList = none ∨
    ∃ c rest, t.toList = '0' :: c :: rest ∧ c.isDigit = true

theorem keptText_marker (c : ErrorCode) : KeptText c.marker := by
  constructor
  case ne_empty | not_mem | no_formula => cases c <;> decide
  case trimmed => cases c <;> exact ⟨by rintro _ ⟨⟩; rfl, by rintro _ ⟨⟩; rfl⟩
  case no_bool => cases c <;> decide
  case no_number => cases c <;> exact Or.inl rfl

theorem mem_canonical (hfinite : Number.isFinite x = true) {c : Char}
    (h : c ∈ (Number.canonical x).toList) : c.isDigit = true ∨ c = '-' ∨ c = '.' := by
  obtain ⟨d, whole, part, hpointed, htext⟩ := Number.pointed_canonical hfinite
  rw [htext, List.mem_append, pointed, List.mem_append] at h
  rcases h with hsign | hwhole | hpart
  · refine Or.inr (Or.inl ?_)
    rw [signChars] at hsign
    split at hsign
    next => exact List.mem_singleton.mp hsign
    next => cases hsign
  · exact Or.inl (hpointed.isDigit_whole c hwhole)
  · split at hpart
    next => cases hpart
    next =>
      rcases List.mem_cons.mp hpart with hpoint | hpart
      · exact Or.inr (Or.inr hpoint)
      · exact Or.inl (hpointed.isDigit_part c hpart)

theorem canonical_ne_empty (hfinite : Number.isFinite x = true) : Number.canonical x ≠ "" := by
  obtain ⟨d, whole, part, hpointed, htext⟩ := Number.pointed_canonical hfinite
  intro hempty
  rw [hempty] at htext
  have hwhole : whole = [] := (List.append_eq_nil_iff.mp (List.append_eq_nil_iff.mp htext.symm).2).1
  exact hpointed.whole_ne_nil hwhole

theorem trimmed_canonical (hfinite : Number.isFinite x = true) :
    Trimmed (Number.canonical x).toList := by
  have hblank : ∀ c ∈ (Number.canonical x).toList, Text.isBlank c = false := by
    intro c hc
    rcases mem_canonical hfinite hc with hdigit | rfl | rfl
    · exact Scan.not_isBlank_of_isWordChar (Scan.isWordChar_of_isDigit hdigit)
    · rfl
    · rfl
  exact ⟨fun c hc => hblank c (List.mem_of_mem_head? hc),
    fun c hc => hblank c (List.mem_of_getLast? hc)⟩

theorem not_mem_canonical (hfinite : Number.isFinite x = true) {c : Char}
    (hdigit : c.isDigit = false) (hsign : c ≠ '-') (hpoint : c ≠ '.') :
    c ∉ (Number.canonical x).toList := by
  intro hc
  rcases mem_canonical hfinite hc with h | h | h
  · rw [hdigit] at h
    cases h
  · exact hsign h
  · exact hpoint h

end Csv

namespace Evaluation

variable {e : Evaluation}

/-- An outcome that is told from all others by its exported text. -/
def Portable (e : Evaluation) : Prop :=
  match e.outcome with
  | .ok (.number x) => Number.isFinite x = true
  | .ok (.text t) => Csv.KeptText t
  | _ => True

/-- What is read of the exported outcome: zero has no sign, and a failure leaves its marker. -/
def readBack (e : Evaluation) : Value :=
  match e.outcome with
  | .ok (.number x) => .number (if x == 0 then 0 else x)
  | .ok v => v
  | .error f => .text f.code.marker

theorem Portable.not_mem (h : e.Portable) : '\n' ∉ e.exported.toList := by
  obtain ⟨outcome, explain⟩ := e
  cases outcome with
  | error f => exact (Csv.keptText_marker f.code).not_mem
  | ok v =>
    cases v with
    | number x => exact Csv.not_mem_canonical h (by decide) (by decide) (by decide)
    | text t => exact Csv.KeptText.not_mem h
    | bool b =>
      show '\n' ∉ (Value.boolText b).toList
      cases b <;> decide
    | null =>
      show '\n' ∉ "".toList
      decide

end Evaluation

end Recalc
