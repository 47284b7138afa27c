import Mathlib.Logic.Relation
import Recalc.Sheet.Dependencies

namespace Recalc

theorem Rect.contains_of_clip? {r part : Rect} {rows cols : Nat} {a : Address}
    (h : r.clip? rows cols = some part) :
    part.Contains a ↔ r.Contains a ∧ a.within rows cols = true := by
  unfold Rect.clip? at h
  split at h
  next hin =>
    cases Option.some.inj h
    simp only [Rect.Contains, Address.within, Bool.and_eq_true, decide_eq_true_eq]
    omega
  next => simp at h

theorem Rect.not_within_of_clip? {r : Rect} {rows cols : Nat} {a : Address}
    (h : r.clip? rows cols = none) (ha : r.Contains a) : a.within rows cols = false := by
  unfold Rect.clip? at h
  split at h
  next => simp at h
  next hout =>
    have hge : ¬ (a.row < rows ∧ a.col < cols) := by
      unfold Rect.Contains at ha
      omega
    simpa [Address.within] using hge

/-- `a` stands in the formula, or lies in a range that does. -/
inductive Expr.Names (a : Address) : Expr → Prop
  | ref {r : Reference} (h : r.address = a) : Names a (.ref r)
  | range {first last : Reference} (h : (Rect.spanning first.address last.address).Contains a) :
      Names a (.range first last)
  | call {f : String} {args : List Expr} {e : Expr} (he : e ∈ args) (h : Names a e) :
      Names a (.call f args)
  | left {op : Operator} {left right : Expr} (h : Names a left) : Names a (.binary op left right)
  | right {op : Operator} {left right : Expr} (h : Names a right) : Names a (.binary op left right)
  | neg {operand : Expr} (h : Names a operand) : Names a (.neg operand)

namespace Expr

variable {a : Address} {rows cols : Nat}

theorem names_call {f : String} {args : List Expr} :
    Names a (.call f args) ↔ ∃ e ∈ args, Names a e := by
  constructor
  · intro h
    cases h with
    | call he h => exact ⟨_, he, h⟩
  · rintro ⟨e, he, h⟩
    exact .call he h

theorem names_binary {op : Operator} {left right : Expr} :
    Names a (.binary op left right) ↔ Names a left ∨ Names a right := by
  constructor
  · intro h
    cases h with
    | left h => exact Or.inl h
    | right h => exact Or.inr h
  · rintro (h | h)
    · exact .left h
    · exact .right h

mutual

/-- The cells of the sheet that a formula mentions are those that it names. -/
theorem mem_mentioned (e : Expr) :
    a ∈ e.mentioned rows cols ↔ Names a e ∧ a.within rows cols = true := by
  cases e with
  | number | text | bool =>
    simp only [mentioned, List.not_mem_nil, false_iff, not_and]
    intro h
    cases h
  | ref r =>
    have hnames : Names a (.ref r) ↔ r.address = a := ⟨fun (.ref h) => h, .ref⟩
    rw [mentioned, hnames]
    split
    next hin =>
      rw [List.mem_singleton]
      exact ⟨fun h => ⟨h.symm, h ▸ hin⟩, fun h => h.1.symm⟩
    next hout =>
      simp only [List.not_mem_nil, false_iff, not_and]
      rintro rfl
      exact hout
  | range first last =>
    have hnames : Names a (.range first last) ↔
        (Rect.spanning first.address last.address).Contains a := ⟨fun (.range h) => h, .range⟩
    rw [mentioned, hnames]
    split
    next part hpart => rw [Rect.mem_cells, Rect.contains_of_clip? hpart]
    next hnone =>
      simp only [List.not_mem_nil, false_iff, not_and]
      intro h
      simp [Rect.not_within_of_clip? hnone h]
  | call f args => rw [mentioned, mem_mentionedInArguments args, names_call]
  | binary op left right =>
    rw [mentioned, List.mem_append, mem_mentioned left, mem_mentioned right, names_binary, or_and_right]
  | neg operand =>
    have hnames : Names a (.neg operand) ↔ Names a operand := ⟨fun (.neg h) => h, .neg⟩
    rw [mentioned, mem_mentioned operand, hnames]

theorem mem_mentionedInArguments (es : List Expr) :
    a ∈ mentionedInArguments rows cols es ↔
      (∃ e ∈ es, Names a e) ∧ a.within rows cols = true := by
  cases es with
  | nil => simp [mentionedInArguments]
  | cons e es =>
    rw [mentionedInArguments, List.mem_append, mem_mentioned e, mem_mentionedInArguments es,
      ← or_and_right]
    simp only [List.mem_cons, exists_eq_or_imp]

end

end Expr

theorem mem_firstOccurrences {seen : AddressSet} {as : List Address} {a : Address} :
    a ∈ firstOccurrences seen as ↔ a ∈ as ∧ a ∉ seen := by
  induction as generalizing seen with
  | nil => simp [firstOccurrences]
  | cons b as ih =>
    rw [firstOccurrences]
    split
    next hb =>
      rw [ih, List.mem_cons]
      grind
    next hb =>
      rw [List.mem_cons, ih, List.mem_cons, Std.ExtTreeSet.mem_insert, Std.compare_eq_iff_eq]
      grind

theorem Expr.mem_dependencies {e : Expr} {rows cols : Nat} {a : Address} :
    a ∈ e.dependencies rows cols ↔ e.Names a ∧ a.within rows cols = true := by
  rw [Expr.dependencies, mem_firstOccurrences, Expr.mem_mentioned]
  simp

namespace Sheet

/-- A formula is stored at `a` and reads `b`, a cell of the sheet. -/
def Reads (s : Sheet) (a b : Address) : Prop := ∃ c, s.get? a = some c ∧ b ∈ s.dependencies c

/-- The formula `e` is stored at `a`. -/
def Holds (s : Sheet) (a : Address) (e : Expr) : Prop :=
  ∃ source, s.get? a = some (.formula source (some e))

/-- A formula that cannot be read is stored at `a`. -/
def Unread (s : Sheet) (a : Address) : Prop := ∃ source, s.get? a = some (.formula source none)

/-- The formula at `a` names `b`, which may lie outside of the sheet. -/
def Refers (s : Sheet) (a b : Address) : Prop := ∃ e, s.Holds a e ∧ e.Names b

theorem contains_iff {s : Sheet} {a : Address} :
    s.contains a = true ↔ a.row < s.rows ∧ a.col < s.cols := by
  simp only [contains, Address.within, Bool.and_eq_true, decide_eq_true_eq]

theorem get?_empty {id name : String} {rows cols : Nat} {a : Address} :
    (empty id name rows cols).get? a = none := by
  simp [get?, empty]

theorem get?_set {s : Sheet} {a b : Address} {c : Cell} :
    (s.set a c).get? b = if a = b then some c else s.get? b := by
  simp only [get?, set, Std.ExtTreeMap.getElem?_insert, Std.compare_eq_iff_eq]

theorem get?_set_of_ne {s : Sheet} {a b : Address} {c : Cell} (h : b ≠ a) :
    (s.set a c).get? b = s.get? b := by
  rw [get?_set, if_neg h.symm]

theorem get?_remove {s : Sheet} {a b : Address} :
    (s.remove a).get? b = if a = b then none else s.get? b := by
  simp only [get?, remove, Std.ExtTreeMap.getElem?_erase, Std.compare_eq_iff_eq]

theorem get?_remove_of_ne {s : Sheet} {a b : Address} (h : b ≠ a) :
    (s.remove a).get? b = s.get? b := by
  rw [get?_remove, if_neg h.symm]

theorem mem_occupied {s : Sheet} {a : Address} {c : Cell} :
    (a, c) ∈ s.occupied ↔ s.get? a = some c := by
  rw [occupied, Std.ExtTreeMap.mem_toList_iff_getElem?_eq_some, get?]

theorem mem_dependencies {s : Sheet} {c : Cell} {b : Address} :
    b ∈ s.dependencies c ↔ ∃ e, c.expr? = some e ∧ e.Names b ∧ s.contains b = true := by
  unfold dependencies
  split
  next e he =>
    rw [Expr.mem_dependencies]
    constructor
    · rintro ⟨hname, hin⟩
      exact ⟨e, he, hname, hin⟩
    · rintro ⟨e', he', hname, hin⟩
      obtain rfl := Option.some.inj (he.symm.trans he')
      exact ⟨hname, hin⟩
  next hnone => simp [hnone]

theorem reads_iff {s : Sheet} {a b : Address} :
    s.Reads a b ↔ ∃ e, s.Holds a e ∧ b ∈ e.dependencies s.rows s.cols := by
  constructor
  · rintro ⟨c, hc, hb⟩
    unfold dependencies at hb
    split at hb
    next e he =>
      cases c with
      | literal | error => cases he
      | formula source expr => exact ⟨e, ⟨source, he ▸ hc⟩, hb⟩
    next => cases hb
  · rintro ⟨e, ⟨source, he⟩, hb⟩
    exact ⟨_, he, hb⟩

theorem eq_of_mem_dependencies_ref {s : Sheet} {source : String} {r : Reference} {b : Address}
    (h : b ∈ s.dependencies (.formula source (some (.ref r)))) : b = r.address := by
  obtain ⟨e, he, hname, _⟩ := mem_dependencies.mp h
  cases Option.some.inj he
  cases hname with
  | ref hr => exact hr.symm

/-- What a cell reads depends on its own contents and on the size of the sheet only. -/
theorem reads_congr {s t : Sheet} {a b : Address} (hrows : s.rows = t.rows) (hcols : s.cols = t.cols)
    (hcell : s.get? a = t.get? a) : s.Reads a b ↔ t.Reads a b := by
  have hdeps : ∀ c, s.dependencies c = t.dependencies c := by
    intro c
    simp only [dependencies, hrows, hcols]
  simp only [Reads, hcell, hdeps]

theorem reads_set_self {s : Sheet} {a b : Address} {c : Cell} :
    (s.set a c).Reads a b ↔ b ∈ s.dependencies c := by
  have hget : (s.set a c).get? a = some c := by rw [get?_set, if_pos rfl]
  constructor
  · rintro ⟨c', hc', hb⟩
    obtain rfl := Option.some.inj (hget.symm.trans hc')
    exact hb
  · intro hb
    exact ⟨c, hget, hb⟩

theorem not_reads_remove_self {s : Sheet} {a b : Address} : ¬ (s.remove a).Reads a b := by
  rintro ⟨c, hc, _⟩
  simp [get?_remove] at hc

theorem not_reads_of_unread {s : Sheet} {a b : Address} (h : s.Unread a) : ¬ s.Reads a b := by
  rintro ⟨c, hc, hb⟩
  obtain ⟨source, hsource⟩ := h
  obtain rfl := Option.some.inj (hsource.symm.trans hc)
  simp [dependencies, Cell.expr?] at hb

end Sheet

end Recalc
