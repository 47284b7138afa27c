import Recalc.Document.Edit
import Recalc.Proofs.Csv.Fields
import Recalc.Proofs.Document.Update

namespace Recalc

/-- Equality of cells, where numbers are compared as numbers. -/
def Cell.Same : Cell → Cell → Prop
  | literal v, literal w => v.same w = true
  | c, c' => c = c'

theorem Cell.Same.eq_text {c : Cell} {t : String} (h : c.Same (.literal (.text t))) :
    c = .literal (.text t) := by
  cases c with
  | formula | error => cases h
  | literal v =>
    cases v with
    | number | bool | null => cases h
    | text t' => rw [show t' = t from eq_of_beq h]

theorem Cell.inputText_ofFormula {cs : List Char} :
    (ofFormula (String.ofList ('=' :: cs))).inputText = String.ofList ('=' :: cs) := by
  simp [ofFormula, inputText]

def EditAction.cell? : EditAction → Option Cell
  | clear => none
  | formula source => some (.ofFormula source)
  | literal v => some (.literal v)

namespace Edit

variable {cs : List Char} {address t : String} {v : Value} {x : Float}

/-- The characters stand between two quotes. -/
def Quoted (cs : List Char) : Prop := ∃ inner, cs = '"' :: (inner ++ ['"'])

/-- The value that is meant by characters without blanks around them. -/
inductive Means : List Char → Value → Prop
  | quoted (inner : List Char) : Means ('"' :: (inner ++ ['"'])) (.text (String.ofList inner))
  | number {cs : List Char} {x : Float} (hopen : ¬ Quoted cs) (h : Number.read? cs = some x) :
      Means cs (.number x)
  | bool {cs : List Char} (b : Bool) (hopen : ¬ Quoted cs) (hnumber : Number.read? cs = none)
      (h : Text.lowerAscii (String.ofList cs) = Value.boolText b) : Means cs (.bool b)
  | text {cs : List Char} (hopen : ¬ Quoted cs) (hnumber : Number.read? cs = none)
      (hbool : ∀ b, Text.lowerAscii (String.ofList cs) ≠ Value.boolText b) :
      Means cs (.text (String.ofList cs))

theorem quoted_cons {rest : List Char} : Quoted ('"' :: rest) ↔ rest.getLast? = some '"' := by
  rw [List.getLast?_eq_some_iff]
  constructor
  · rintro ⟨inner, h⟩
    exact ⟨inner, (List.cons_eq_cons.mp h).2⟩
  · rintro ⟨inner, rfl⟩
    exact ⟨inner, rfl⟩

theorem lowerAscii_quote {rest : List Char} (b : Bool) :
    Text.lowerAscii (String.ofList ('"' :: rest)) ≠ Value.boolText b := by
  intro h
  have hlist := congrArg String.toList h
  rw [Text.lowerAscii, String.toList_ofList, String.toList_ofList] at hlist
  cases b <;> cases hlist

theorem means_literalOf (cs : List Char) : Means cs (literalOf cs) := by
  unfold literalOf
  split
  next rest =>
    split
    next hlast =>
      obtain ⟨inner, rfl⟩ := List.getLast?_eq_some_iff.mp hlast
      rw [List.dropLast_concat]
      exact .quoted inner
    next hlast => exact .text (fun h => hlast (quoted_cons.mp h)) rfl lowerAscii_quote
  next hquote =>
    have hopen : ¬ Quoted cs := by
      rintro ⟨inner, rfl⟩
      exact hquote _ rfl
    split
    next x hx => exact .number hopen hx
    next hnumber =>
      dsimp only
      split
      next h => exact .bool true hopen hnumber h
      next htrue =>
        split
        next h => exact .bool false hopen hnumber h
        next hfalse =>
          refine .text hopen hnumber ?_
          rintro (_ | _)
          · exact hfalse
          · exact htrue

/-- What a user means is one value only. -/
theorem Means.unique {w : Value} (hv : Means cs v) (hw : Means cs w) : v = w := by
  cases hv with
  | quoted inner =>
    generalize hcs : '"' :: (inner ++ ['"']) = cs at hw
    cases hw with
    | quoted inner' =>
      have heq := (List.append_inj' (List.cons_eq_cons.mp hcs).2 rfl).1
      rw [heq]
    | number hopen | bool _ hopen | text hopen => exact absurd ⟨inner, hcs.symm⟩ hopen
  | number hopen h =>
    cases hw with
    | quoted inner => exact absurd ⟨inner, rfl⟩ hopen
    | number _ h' => cases Option.some.inj (h.symm.trans h'); rfl
    | bool _ _ hnone | text _ hnone => cases h.symm.trans hnone
  | bool b hopen hnone h =>
    cases hw with
    | quoted inner => exact absurd ⟨inner, rfl⟩ hopen
    | number _ h' => cases hnone.symm.trans h'
    | bool b' _ _ h' =>
      have heq := h.symm.trans h'
      cases b <;> cases b' <;> first | rfl | exact absurd heq (by decide)
    | text _ _ hbool => exact absurd h (hbool b)
  | text hopen hnone hbool =>
    cases hw with
    | quoted inner => exact absurd ⟨inner, rfl⟩ hopen
    | number _ h' => cases hnone.symm.trans h'
    | bool b _ _ h => exact absurd h (hbool b)
    | text => rfl

theorem ofInput_of_means {input : String} (hstrip : Text.stripBlanks input.toList = cs)
    (hne : cs ≠ []) (hformula : cs.head? ≠ some '=') (hv : Means cs v) :
    ofInput address input = ⟨address, .literal v⟩ := by
  unfold ofInput
  rw [hstrip]
  split
  next => exact absurd rfl hne
  next => exact absurd rfl hformula
  next => rw [(means_literalOf cs).unique hv]

/-- A text that is meant when it is typed as it stands. -/
structure Literally (t : String) : Prop where
  ne_empty : t ≠ ""
  trimmed : Csv.Trimmed t.toList
  no_formula : t.toList.head? ≠ some '='
  no_quotes : ¬ Quoted t.toList
  no_number : Number.read? t.toList = none
  no_bool : ∀ b, Text.lowerAscii t ≠ Value.boolText b

theorem Literally.ofInput_eq (h : Literally t) :
    ofInput address t = ⟨address, .literal (.text t)⟩ := by
  have hne : t.toList ≠ [] := fun hnil => h.ne_empty (String.toList_eq_nil_iff.mp hnil)
  have hmeans : Means t.toList (.text (String.ofList t.toList)) :=
    .text h.no_quotes h.no_number (by rw [String.ofList_toList]; exact h.no_bool)
  rw [ofInput_of_means h.trimmed.stripBlanks_eq hne h.no_formula hmeans, String.ofList_toList]

theorem literally_of_means_text (hne : cs ≠ []) (hformula : cs.head? ≠ some '=')
    (htrimmed : Csv.Trimmed cs) (hopen : ¬ Quoted cs) (h : Means cs (.text t)) :
    t = String.ofList cs ∧ Literally t := by
  generalize hw : Value.text t = w at h
  cases h with
  | quoted inner => exact absurd ⟨inner, rfl⟩ hopen
  | number | bool => cases hw
  | text _ hnumber hbool =>
    cases hw
    refine ⟨rfl, ?_, ?_, ?_, ?_, ?_, hbool⟩
    · intro hempty
      exact hne (by simpa using congrArg String.toList hempty)
    all_goals rwa [String.toList_ofList]

theorem ofInput_address (address input : String) : (ofInput address input).address = address := by
  unfold ofInput
  split <;> rfl

/-- What typing comes to: nothing, a formula, or the value that is meant. -/
theorem ofInput_cases (address input : String) :
    (ofInput address input = ⟨address, .clear⟩ ∧ Text.stripBlanks input.toList = []) ∨
      (∃ cs, Text.stripBlanks input.toList = '=' :: cs ∧
        ofInput address input = ⟨address, .formula (String.ofList ('=' :: cs))⟩) ∨
      ∃ v, Text.stripBlanks input.toList ≠ [] ∧
        (Text.stripBlanks input.toList).head? ≠ some '=' ∧
        Means (Text.stripBlanks input.toList) v ∧ ofInput address input = ⟨address, .literal v⟩ := by
  unfold ofInput
  split
  next h => exact Or.inl ⟨rfl, h⟩
  next cs h => exact Or.inr (Or.inl ⟨cs, h, rfl⟩)
  next hne hformula =>
    refine Or.inr (Or.inr ⟨_, hne, fun hhead => ?_, means_literalOf _, rfl⟩)
    obtain ⟨cs, hcs⟩ := List.head?_eq_some_iff.mp hhead
    exact hformula cs hcs

/-- A text comes back from being typed as it stands only if it reads so. -/
theorem ofInput_eq_text_iff :
    (ofInput address t).action = .literal (.text t) ↔ Literally t := by
  refine ⟨fun h => ?_, fun h => by rw [h.ofInput_eq]⟩
  rcases ofInput_cases address t with ⟨heq, _⟩ | ⟨cs, _, heq⟩ | ⟨v, hne, hformula, hmeans, heq⟩
  · rw [heq] at h
    cases h
  · rw [heq] at h
    cases h
  · rw [heq] at h
    obtain rfl : v = .text t := EditAction.literal.inj h
    refine (literally_of_means_text hne hformula (Csv.trimmed_stripBlanks _) ?_ hmeans).2
    rintro ⟨inner, hinner⟩
    -- A text that loses its quotes is shorter than it was.
    rw [hinner] at hmeans
    have htext : t = String.ofList inner := Value.text.inj (hmeans.unique (.quoted inner))
    have hlength := Csv.length_stripBlanks_le t.toList
    rw [hinner, htext, String.toList_ofList, List.length_cons, List.length_append] at hlength
    omega

theorem ofInput_formula (h : Csv.Trimmed ('=' :: cs)) :
    ofInput address (String.ofList ('=' :: cs)) =
      ⟨address, .formula (String.ofList ('=' :: cs))⟩ := by
  rw [ofInput, String.toList_ofList, h.stripBlanks_eq]
  rfl

theorem ofInput_boolText (b : Bool) :
    ofInput address (Value.boolText b) = ⟨address, .literal (.bool b)⟩ := by
  cases b <;> rfl

theorem ofInput_canonical (hfinite : Number.isFinite x = true) :
    ofInput address (Number.canonical x) =
      ⟨address, .literal (.number (if x == 0 then 0 else x))⟩ := by
  have hmark : ∀ c, c.isDigit = false → c ≠ '-' → c ≠ '.' →
      (Number.canonical x).toList.head? ≠ some c := by
    intro c hdigit hsign hpoint hhead
    exact Csv.not_mem_canonical hfinite hdigit hsign hpoint (List.mem_of_mem_head? hhead)
  have hne : (Number.canonical x).toList ≠ [] := fun hnil =>
    Csv.canonical_ne_empty hfinite (String.toList_eq_nil_iff.mp hnil)
  have hopen : ¬ Quoted (Number.canonical x).toList := by
    rintro ⟨inner, hinner⟩
    exact hmark '"' (by decide) (by decide) (by decide) (by rw [hinner]; rfl)
  exact ofInput_of_means (Csv.trimmed_canonical hfinite).stripBlanks_eq hne
    (hmark '=' (by decide) (by decide) (by decide)) (.number hopen (Number.read?_canonical hfinite))

end Edit

namespace Document

variable {d e : Document} {a : Address} {c : Cell}

/-- The document after a cell has been stored, or cleared. -/
def put (d : Document) (a : Address) : Option Cell → Document
  | none => d.erase a
  | some c => (d.store a c).1

theorem contains_put {b : Address} (x : Option Cell) :
    (d.put a x).sheet.contains b = d.sheet.contains b := by
  have hchange : ChangedAt d a (d.put a x) := by
    cases x with
    | none => exact changedAt_erase d a
    | some c => exact changedAt_store d a c
  rw [Sheet.contains, Sheet.contains, hchange.rows, hchange.cols]

theorem exists_apply {x : Edit} (ha : Address.decode x.address = .ok a)
    (hin : d.sheet.contains a = true) :
    ∃ r, d.apply x = .ok (d.put a x.action.cell?, r) := by
  unfold Document.apply
  rw [ha]
  have hupdate : ∀ c, d.update a c = .ok ((d.store a c).1, _) := fun c =>
    update_eq_ok.mpr ⟨hin, rfl, rfl⟩
  cases x.action with
  | clear => exact ⟨_, clear_eq_ok.mpr ⟨hin, rfl, rfl⟩⟩
  | formula source => exact ⟨_, hupdate (.ofFormula source)⟩
  | literal v => exact ⟨_, hupdate (.literal v)⟩

theorem apply_eq_put {x : Edit} {r : Recalculation} (ha : Address.decode x.address = .ok a)
    (h : d.apply x = .ok (e, r)) :
    d.sheet.contains a = true ∧ e = d.put a x.action.cell? := by
  obtain ⟨b, hb, hin, _⟩ := edit_cases (e := .apply x) h
  obtain rfl : a = b := Except.ok.inj (ha.symm.trans hb)
  obtain ⟨r', hr'⟩ := exists_apply (d := d) ha hin
  exact ⟨hin, (Prod.mk.inj (Except.ok.inj (h.symm.trans hr'))).1⟩

theorem get?_put_none : (d.put a none).sheet.get? a = none := by
  rw [put, erase, Sheet.get?_remove, if_pos rfl]

theorem get?_put_literal {v : Value} :
    (d.put a (some (.literal v))).sheet.get? a = some (.literal v) := by
  have hsheet : (d.store a (.literal v)).1.sheet = d.sheet.set a (.literal v) :=
    (updated_store d a (.literal v)).2.1
  rw [put, hsheet, Sheet.get?_set, if_pos rfl]

/-- Where a cell is stored there is the cell, or a failure in its place. -/
theorem get?_store (d : Document) (a : Address) (c : Cell) :
    (d.store a c).1.sheet.get? a = some c ∨
      ∃ f, (d.store a c).1.sheet.get? a = some (.error f) := by
  have hset : ∀ x, (d.sheet.set a x).get? a = some x := fun x => by
    rw [Sheet.get?_set, if_pos rfl]
  have hstored := stored_store d a c
  generalize d.store a c = result at hstored
  cases hstored with
  | unread => exact Or.inl (hset _)
  | rejected => exact Or.inr ⟨_, hset _⟩
  | accepted => exact Or.inl (hset _)

/-- A cell that was not rejected is not rejected when it is stored once more. -/
theorem store_again (h : (d.store a c).1.sheet.get? a = some c) :
    ((d.store a c).1.store a c).1.sheet.get? a = some c := by
  have hset : ∀ {s : Sheet}, s = (d.store a c).1.sheet.set a c → s.get? a = some c := by
    rintro _ rfl
    rw [Sheet.get?_set, if_pos rfl]
  have hchange := changedAt_store d a c
  have hagain := updated_store (d.store a c).1 a c
  have honce := updated_store d a c
  rcases c with v | ⟨source, _ | f⟩ | f
  case literal | formula.none | error => exact hset hagain.2.1
  case formula.some =>
    obtain ⟨hrejects, -, haccepts⟩ := hagain
    cases hrejected : ((d.store a (.formula source (some f))).1.store a
        (.formula source (some f))).2 with
    | false => exact hset (haccepts hrejected).1
    | true =>
      obtain ⟨b, hb, hlead⟩ := hrejects.mp hrejected
      rw [hchange.rows, hchange.cols] at hb
      have hback := (Graph.leadsBack_congr hchange.links).mp hlead
      obtain ⟨⟨_, _, _, _, _, _, hsheet⟩, _⟩ := honce.2.1 (honce.1.mpr ⟨b, hb, hback⟩)
      rw [hsheet, Sheet.get?_set, if_pos rfl] at h
      cases h

theorem eq_of_get?_put {x : Option Cell} (h : (d.put a x).sheet.get? a = some c)
    (hstored : ∀ f, c ≠ .error f) : x = some c := by
  cases x with
  | none =>
    rw [get?_put_none] at h
    cases h
  | some c' =>
    rcases get?_store d a c' with hc' | ⟨f, hf⟩
    · exact hc'.symm.trans h
    · exact absurd (Option.some.inj (h.symm.trans hf)) (hstored f)

/-- What is typed gives the text `t` in the cell only if this text is meant. -/
theorem same_text_iff {t : String} (action : EditAction) :
    (∃ c', (d.put a action.cell?).sheet.get? a = some c' ∧ c'.Same (.literal (.text t))) ↔
      action = .literal (.text t) := by
  constructor
  · rintro ⟨c', hc', hsame⟩
    obtain rfl := hsame.eq_text
    have hcell := eq_of_get?_put hc' nofun
    cases action with
    | clear | formula => cases hcell
    | literal v => rw [Cell.literal.inj (Option.some.inj hcell)]
  · rintro rfl
    exact ⟨_, get?_put_literal, by simp [Cell.Same, Value.same]⟩

/-- Typed once more, the text of a value that was typed gives the value, if it is no text. -/
theorem same_of_means {cs : List Char} {v : Value} (hv : Edit.Means cs v) (address : String)
    (hkind : ∀ t, v ≠ .text t) : ∃ w,
      Edit.ofInput address (Cell.literal v).inputText = ⟨address, .literal w⟩ ∧ w.same v = true := by
  cases hv with
  | quoted | text => exact absurd rfl (hkind _)
  | number _ h =>
    have hfinite := Number.isFinite_of_read? h
    exact ⟨_, Edit.ofInput_canonical hfinite, Number.unsigned_beq hfinite⟩
  | bool b => exact ⟨_, Edit.ofInput_boolText b, by cases b <;> rfl⟩

/-- The text that a user would edit for a cell that was typed gives the same cell once more, unless
it is a text that reads as something else. Only what stands between quotes can become such a text. -/
theorem resubmitted_same_iff {address input : String} {r : Recalculation}
    (ha : Address.decode address = .ok a)
    (h : d.apply (Edit.ofInput address input) = .ok (e, r)) (hc : e.sheet.get? a = some c)
    (hstored : ∀ f, c ≠ .error f) :
    ∃ e' r', e.apply (Edit.ofInput address c.inputText) = .ok (e', r') ∧
      ((∃ c', e'.sheet.get? a = some c' ∧ c'.Same c) ↔
        ∀ t, c = .literal (.text t) → Edit.Literally t) ∧
      (¬ Edit.Quoted (Text.stripBlanks input.toList) →
        ∃ c', e'.sheet.get? a = some c' ∧ c'.Same c) := by
  have hplace : ∀ text, Address.decode (Edit.ofInput address text).address = .ok a := fun text => by
    rw [Edit.ofInput_address, ha]
  obtain ⟨hin, rfl⟩ := apply_eq_put (hplace input) h
  obtain ⟨r', hr'⟩ := exists_apply (hplace c.inputText) ((contains_put _).trans hin)
  refine ⟨_, r', hr', ?_⟩
  have hcell := eq_of_get?_put hc hstored
  rcases Edit.ofInput_cases address input with
    ⟨heq, _⟩ | ⟨cs, hstrip, heq⟩ | ⟨v, hne, hformula, hmeans, heq⟩ <;> rw [heq] at hc hcell ⊢
  · cases hcell
  · obtain rfl : Cell.ofFormula (String.ofList ('=' :: cs)) = c := Option.some.inj hcell
    rw [Cell.inputText_ofFormula, Edit.ofInput_formula (hstrip ▸ Csv.trimmed_stripBlanks _)]
    have hagain := store_again hc
    exact ⟨iff_of_true ⟨_, hagain, rfl⟩ nofun, fun _ => ⟨_, hagain, rfl⟩⟩
  · obtain rfl : Cell.literal v = c := Option.some.inj hcell
    cases v with
    | text t =>
      have hiff := (same_text_iff (d := d.put a (some (.literal (.text t)))) (a := a)
        (Edit.ofInput address t).action).trans Edit.ofInput_eq_text_iff
      refine ⟨hiff.trans ⟨fun ht t' heq => ?_, fun ht => ht t rfl⟩, fun hopen => ?_⟩
      · cases heq
        exact ht
      · exact hiff.mpr
          (Edit.literally_of_means_text hne hformula (Csv.trimmed_stripBlanks _) hopen hmeans).2
    | number | bool | null =>
      obtain ⟨w, hw, hsame⟩ := same_of_means hmeans address nofun
      rw [hw]
      exact ⟨iff_of_true ⟨_, get?_put_literal, hsame⟩ nofun,
        fun _ => ⟨_, get?_put_literal, hsame⟩⟩

def oneCell : Document := load (Sheet.empty "s" "Sheet" 1 1) Policy.standard

theorem decode_first : Address.decode "A1" = .ok ⟨0, 0⟩ := by with_unfolding_all rfl

/-- A quoted text that reads as itself stays. -/
theorem resubmitted_same_iff_words : ∃ e r e' r',
    Address.decode "A1" = .ok ⟨0, 0⟩ ∧
      oneCell.apply (Edit.ofInput "A1" " \"a b\"") = .ok (e, r) ∧
      e.sheet.get? ⟨0, 0⟩ = some (.literal (.text "a b")) ∧
      e.apply (Edit.ofInput "A1" "a b") = .ok (e', r') ∧
      ∃ c', e'.sheet.get? ⟨0, 0⟩ = some c' ∧ c'.Same (.literal (.text "a b")) := by
  have hinput : Edit.ofInput "A1" " \"a b\"" = ⟨"A1", .literal (.text "a b")⟩ := rfl
  obtain ⟨r, hr⟩ := exists_apply (d := oneCell) (a := ⟨0, 0⟩)
    (x := Edit.ofInput "A1" " \"a b\"") decode_first rfl
  have hcell : (oneCell.put ⟨0, 0⟩ (Edit.ofInput "A1" " \"a b\"").action.cell?).sheet.get? ⟨0, 0⟩ =
      some (.literal (.text "a b")) := by
    rw [hinput]
    exact get?_put_literal
  have hliterally : Edit.Literally "a b" := by
    constructor
    case ne_empty => decide
    case trimmed => exact ⟨by rintro _ ⟨⟩; rfl, by rintro _ ⟨⟩; rfl⟩
    case no_formula => decide
    case no_quotes => rintro ⟨inner, ⟨⟩⟩
    case no_number => rfl
    case no_bool => decide
  obtain ⟨e', r', hagain, hiff, _⟩ := resubmitted_same_iff decode_first hr hcell nofun
  refine ⟨_, r, e', r', decode_first, hr, hcell, hagain, hiff.mpr ?_⟩
  rintro t ⟨⟩
  exact hliterally

/-- A number between quotes is a text, and the text for editing it has no quotes. -/
theorem resubmitted_becomes_number : ∃ e r e' r',
    oneCell.apply (Edit.ofInput "A1" "\"42\"") = .ok (e, r) ∧
      e.sheet.get? ⟨0, 0⟩ = some (.literal (.text "42")) ∧
      e.apply (Edit.ofInput "A1" (Cell.literal (.text "42")).inputText) = .ok (e', r') ∧
      e'.sheet.get? ⟨0, 0⟩ = some (.literal (.number 42)) ∧
      ¬ (Cell.literal (.number 42)).Same (.literal (.text "42")) := by
  have hquoted : Edit.ofInput "A1" "\"42\"" = ⟨"A1", .literal (.text "42")⟩ := rfl
  have hplain : Edit.ofInput "A1" (Cell.literal (.text "42")).inputText =
    ⟨"A1", .literal (.number 42)⟩ := rfl
  rw [hquoted, hplain]
  obtain ⟨r, hr⟩ := exists_apply (d := oneCell) (a := ⟨0, 0⟩)
    (x := ⟨"A1", .literal (.text "42")⟩) decode_first rfl
  obtain ⟨r', hr'⟩ := exists_apply (d := oneCell.put ⟨0, 0⟩ (some (.literal (.text "42"))))
    (a := ⟨0, 0⟩) (x := ⟨"A1", .literal (.number 42)⟩) decode_first rfl
  exact ⟨_, r, _, r', hr, get?_put_literal, hr', get?_put_literal, nofun⟩

end Document

end Recalc
