import Recalc.Evaluation.Basic
import Recalc.Proofs.Sheet.Reads

namespace Recalc

theorem Run.forEach_congr {β : Type} {f f' : Nat → Run β} {start count : Nat}
    (h : ∀ i, start ≤ i → i < start + count → f i = f' i) :
    Run.forEach f start count = Run.forEach f' start count := by
  induction count generalizing start with
  | zero => rfl
  | succ count ih =>
    have hfirst := h start (by omega) (by omega)
    have hrest : Run.forEach f (start + 1) count = Run.forEach f' (start + 1) count :=
      ih fun i hlow hhigh => h i (by omega) (by omega)
    rw [Run.forEach, Run.forEach, hfirst, hrest]

section

variable {env env' : Surroundings}

theorem Surroundings.readRect_congr {r : Rect} (hcontains : env.contains = env'.contains)
    (hread : ∀ a, r.Contains a → env.read a = env'.read a) :
    env.readRect r = env'.readRect r := by
  have htop := r.top_le_bottom
  have hleft := r.left_le_right
  have hrows : Run.forEach (fun row => Run.forEach (fun col => env.read ⟨row, col⟩) r.left r.width)
        r.top r.height =
      Run.forEach (fun row => Run.forEach (fun col => env'.read ⟨row, col⟩) r.left r.width)
        r.top r.height := by
    refine Run.forEach_congr fun row hrow hrow' => Run.forEach_congr fun col hcol hcol' => ?_
    unfold Rect.height at hrow'
    unfold Rect.width at hcol'
    exact hread ⟨row, col⟩ ⟨hrow, by dsimp only; omega, hcol, by dsimp only; omega⟩
  rw [Surroundings.readRect, Surroundings.readRect, hcontains, hrows]

mutual

/-- The value of a formula depends on the cells that it names only. -/
theorem Expr.eval_congr (hcontains : env.contains = env'.contains)
    (htraced : env.traced = env'.traced) (e : Expr)
    (hread : ∀ a, e.Names a → env.read a = env'.read a) : e.eval env = e.eval env' := by
  cases e with
  | number | text | bool => simp only [Expr.eval]
  | ref r =>
    rw [Expr.eval, Expr.eval]
    exact hread r.address (.ref rfl)
  | range first last => simp only [Expr.eval]
  | call f args =>
    have hargs : ∀ ranges, Expr.evalArguments env ranges args =
        Expr.evalArguments env' ranges args := fun ranges =>
      Expr.evalArguments_congr hcontains htraced ranges args fun e he a ha => hread a (.call he ha)
    simp only [Expr.eval, htraced, hargs]
  | binary op left right =>
    have hleft := Expr.eval_congr hcontains htraced left fun a ha => hread a (.left ha)
    have hright := Expr.eval_congr hcontains htraced right fun a ha => hread a (.right ha)
    simp only [Expr.eval, htraced, hleft, hright]
  | neg operand =>
    have hoperand := Expr.eval_congr hcontains htraced operand fun a ha => hread a (.neg ha)
    simp only [Expr.eval, htraced, hoperand]

theorem Expr.evalArguments_congr (hcontains : env.contains = env'.contains)
    (htraced : env.traced = env'.traced) (ranges : Bool) (es : List Expr)
    (hread : ∀ e ∈ es, ∀ a, e.Names a → env.read a = env'.read a) :
    Expr.evalArguments env ranges es = Expr.evalArguments env' ranges es := by
  cases es with
  | nil => simp only [Expr.evalArguments]
  | cons e es =>
    have hhere := Expr.eval_congr hcontains htraced e (hread e List.mem_cons_self)
    have hlater := Expr.evalArguments_congr hcontains htraced ranges es
      fun e he => hread e (List.mem_cons_of_mem _ he)
    by_cases hrange : ∃ first last, e = .range first last ∧ ranges = true
    · obtain ⟨first, last, rfl, rfl⟩ := hrange
      have hrect : env.readRect (Rect.spanning first.address last.address) =
          env'.readRect (Rect.spanning first.address last.address) :=
        Surroundings.readRect_congr hcontains
          fun a ha => hread (.range first last) List.mem_cons_self a (.range ha)
      rw [Expr.evalArguments, Expr.evalArguments, hrect, hlater]
    · have hplain : ∀ first last, e = .range first last → ranges = true → False :=
        fun first last he hr => hrange ⟨first, last, he, hr⟩
      rw [Expr.evalArguments, Expr.evalArguments, hhere, hlater]
      · exact hplain
      · exact hplain

end

end

/-- The value of a cell's contents, whose formula sees `env`. -/
def Cell.read (env : Surroundings) (a : Address) : Option Cell → Run Value
  | none => pure .null
  | some (.literal v) => pure v
  | some (.error f) => .fail (.propagated a f)
  | some (.formula source none) => .fail (.unparsed source)
  | some (.formula _ (some e)) => e.eval env

namespace Sheet

open Relation

theorem readCell_eq (s : Sheet) (traced : Bool) (active : AddressSet) (a : Address) :
    s.readCell traced active a =
      if !s.contains a then .fail (.outOfBounds a)
      else if a ∈ active then .fail (.circular a)
      else Run.noted traced (.ref ⟨a, ⟨false, false⟩⟩)
        (Cell.read (s.surroundings traced (active.insert a)) a (s.get? a)) := by
  rw [readCell]
  split
  · rfl
  · split
    · rfl
    · congr 1
      unfold Cell.read surroundings
      split <;> simp_all

/-- Without a trace, reading a cell is reading its contents. -/
theorem readCell_untraced {s : Sheet} {active : AddressSet} {a : Address}
    (hin : s.contains a = true) (ha : a ∉ active) : s.readCell false active a =
      Cell.read (s.surroundings false (active.insert a)) a (s.get? a) := by
  rw [readCell_eq, hin, if_neg ha]
  rfl

/-- The sheets have one size and hold the same in the cells of `p`, which read each other only. -/
structure AgreeOn (s t : Sheet) (p : Address → Prop) : Prop where
  rows : s.rows = t.rows
  cols : s.cols = t.cols
  cells : ∀ a, p a → s.get? a = t.get? a
  closed : ∀ a b, p a → s.Reads a b → p b

theorem AgreeOn.contains {s t : Sheet} {p : Address → Prop} (h : s.AgreeOn t p) :
    s.contains = t.contains := by
  funext a
  rw [Sheet.contains, Sheet.contains, h.rows, h.cols]

theorem readCell_of_not_contains {s : Sheet} {traced : Bool} {active : AddressSet} {a : Address}
    (h : s.contains a = false) : s.readCell traced active a = .fail (.outOfBounds a) := by
  rw [readCell_eq, h]
  rfl

theorem AgreeOn.eval_eq {s t : Sheet} {p : Address → Prop} (h : s.AgreeOn t p) {traced : Bool}
    {active active' : AddressSet} {e : Expr}
    (hnames : ∀ b, e.Names b → s.contains b = true → p b)
    (hread : ∀ b, p b → s.readCell traced active b = t.readCell traced active' b) :
    e.eval (s.surroundings traced active) = e.eval (t.surroundings traced active') := by
  have hcontains :
      (s.surroundings traced active).contains = (t.surroundings traced active').contains :=
    h.contains
  refine Expr.eval_congr hcontains rfl e fun b hb => ?_
  by_cases hin : s.contains b = true
  · exact hread b (hnames b hb hin)
  · have hout : s.contains b = false := by simpa using hin
    exact (readCell_of_not_contains hout).trans (readCell_of_not_contains (h.contains ▸ hout)).symm

theorem AgreeOn.names {s t : Sheet} {p : Address → Prop} (h : s.AgreeOn t p) {a b : Address}
    {source : String} {e : Expr} (ha : p a) (hc : s.get? a = some (.formula source (some e)))
    (hb : e.Names b) (hin : s.contains b = true) : p b :=
  h.closed a b ha ⟨_, hc, mem_dependencies.mpr ⟨e, rfl, hb, hin⟩⟩

/-- A cell comes to the same by the same steps, if the same cells wait for it of those that it may
lead to. -/
theorem readCell_congr {s t : Sheet} {p : Address → Prop} (h : s.AgreeOn t p) (traced : Bool)
    {active active' : AddressSet} (hactive : ∀ b, p b → (b ∈ active ↔ b ∈ active')) {a : Address}
    (ha : p a) : s.readCell traced active a = t.readCell traced active' a := by
  induction hn : (AddressMap.outside s.cells active).length using Nat.strongRecOn
    generalizing active active' a with
  | ind n ih =>
    rw [readCell_eq s, readCell_eq t, ← h.contains, ← h.cells a ha]
    simp only [← hactive a ha]
    split
    · rfl
    · split
      · rfl
      · next hnot =>
        congr 1
        cases hc : s.get? a with
        | none => rfl
        | some c =>
          cases c with
          | literal v => rfl
          | error f => rfl
          | formula source expr =>
            cases expr with
            | none => rfl
            | some e =>
              -- One cell more is active, so fewer are left to become so.
              have hless := AddressMap.outside_insert_lt (mem_cells_of_get? hc) hnot
              have hwider : ∀ b, p b → (b ∈ active.insert a ↔ b ∈ active'.insert a) := by
                intro b hb
                rw [Std.ExtTreeSet.mem_insert, Std.ExtTreeSet.mem_insert, hactive b hb]
              refine h.eval_eq (fun b => h.names ha hc) fun b hb => ?_
              exact ih _ (hn ▸ hless) hwider hb rfl

theorem evaluateCell_congr {s t : Sheet} {p : Address → Prop} (h : s.AgreeOn t p)
    (policy : Policy) {a : Address} (ha : p a) (traced : Bool) :
    s.evaluateCell policy a traced = t.evaluateCell policy a traced := by
  unfold evaluateCell
  rw [← h.contains, ← h.cells a ha]
  split
  · rfl
  · cases hc : s.get? a with
    | none => rfl
    | some c =>
      cases c with
      | literal v => rfl
      | error f => rfl
      | formula source expr =>
        cases expr with
        | none => rfl
        | some e =>
          have hread : ∀ b, p b → s.readCell traced (Std.ExtTreeSet.ofList [a]) b =
              t.readCell traced (Std.ExtTreeSet.ofList [a]) b :=
            fun b hb => readCell_congr h traced (fun _ _ => Iff.rfl) hb
          have heval := h.eval_eq (fun b => h.names ha hc) hread
          simp only [evaluateExpr, heval]

theorem evaluateFormula_congr {s t : Sheet} {p : Address → Prop} (h : s.AgreeOn t p)
    (policy : Policy) {source : String}
    (hreads : ∀ e, Expr.read source = .ok e → ∀ a ∈ e.dependencies s.rows s.cols, p a)
    (traced : Bool) :
    s.evaluateFormula policy source traced = t.evaluateFormula policy source traced := by
  unfold evaluateFormula
  cases he : Expr.read source with
  | error err => rfl
  | ok e =>
    have hnames : ∀ b, e.Names b → s.contains b = true → p b :=
      fun b hb hin => hreads e he b (Expr.mem_dependencies.mpr ⟨hb, hin⟩)
    have heval : e.eval (s.surroundings traced ∅) = e.eval (t.surroundings traced ∅) :=
      h.eval_eq hnames fun b hb => readCell_congr h traced (fun _ _ => Iff.rfl) hb
    simp only [evaluateExpr, heval]

/-- The sheets hold the same in a cell and in all that it leads to. -/
def AgreeFrom (s t : Sheet) (a : Address) : Prop :=
  ∀ b, ReflTransGen s.Reads a b → s.get? b = t.get? b

theorem agreeOn_reached {s t : Sheet} (hrows : s.rows = t.rows) (hcols : s.cols = t.cols)
    {starts : Address → Prop} (h : ∀ a, starts a → s.AgreeFrom t a) :
    s.AgreeOn t fun b => ∃ a, starts a ∧ ReflTransGen s.Reads a b := by
  refine ⟨hrows, hcols, ?_, ?_⟩
  · rintro b ⟨a, ha, hab⟩
    exact h a ha b hab
  · rintro b c ⟨a, ha, hab⟩ hbc
    exact ⟨a, ha, hab.tail hbc⟩

/-- An evaluation reads only what formulas depend on: on two sheets of one size a cell or a formula
comes to the same by the same steps, if the sheets hold the same in all cells that it leads to. -/
theorem evaluation_reads_dependencies_only {s t : Sheet} (hrows : s.rows = t.rows)
    (hcols : s.cols = t.cols) (policy : Policy) (traced : Bool) :
    (∀ a, s.AgreeFrom t a →
        s.evaluateCell policy a traced = t.evaluateCell policy a traced) ∧
      ∀ source, (∀ e, Expr.read source = .ok e →
          ∀ a ∈ e.dependencies s.rows s.cols, s.AgreeFrom t a) →
        s.evaluateFormula policy source traced = t.evaluateFormula policy source traced := by
  constructor
  · intro a ha
    have hagree : s.AgreeOn t fun b => ∃ x, x = a ∧ ReflTransGen s.Reads x b :=
      agreeOn_reached hrows hcols fun x hx => hx ▸ ha
    exact evaluateCell_congr hagree policy ⟨a, rfl, .refl⟩ traced
  · intro source hsource
    have hagree : s.AgreeOn t fun b =>
        ∃ x, (∃ e, Expr.read source = .ok e ∧ x ∈ e.dependencies s.rows s.cols) ∧
          ReflTransGen s.Reads x b :=
      agreeOn_reached hrows hcols fun x ⟨e, he, hx⟩ => hsource e he x hx
    exact evaluateFormula_congr hagree policy (fun e he x hx => ⟨x, ⟨e, he, hx⟩, .refl⟩) traced

/-- A truth value, a formula that refers to it, and two formulas that refer to each other. -/
def quartet : Sheet :=
  ((((Sheet.empty "s" "Sheet" 1 4).set ⟨0, 0⟩ (.literal (.bool true))).set ⟨0, 1⟩
      (.formula "=A1" (some (.ref ⟨⟨0, 0⟩, ⟨false, false⟩⟩)))).set ⟨0, 2⟩
      (.formula "=D1" (some (.ref ⟨⟨0, 3⟩, ⟨false, false⟩⟩)))).set ⟨0, 3⟩
    (.formula "=C1" (some (.ref ⟨⟨0, 2⟩, ⟨false, false⟩⟩)))

theorem quartet_get? {a : Address} {c : Cell} (h : quartet.get? a = some c) :
    a = ⟨0, 3⟩ ∧ c = .formula "=C1" (some (.ref ⟨⟨0, 2⟩, ⟨false, false⟩⟩)) ∨
      a = ⟨0, 2⟩ ∧ c = .formula "=D1" (some (.ref ⟨⟨0, 3⟩, ⟨false, false⟩⟩)) ∨
      a = ⟨0, 1⟩ ∧ c = .formula "=A1" (some (.ref ⟨⟨0, 0⟩, ⟨false, false⟩⟩)) ∨
      a = ⟨0, 0⟩ ∧ c = .literal (.bool true) := by
  rw [quartet, Sheet.get?_set, Sheet.get?_set, Sheet.get?_set, Sheet.get?_set, Sheet.get?_empty] at h
  grind

theorem quartet_reads {a b : Address} (h : quartet.Reads a b) :
    a = ⟨0, 3⟩ ∧ b = ⟨0, 2⟩ ∨ a = ⟨0, 2⟩ ∧ b = ⟨0, 3⟩ ∨ a = ⟨0, 1⟩ ∧ b = ⟨0, 0⟩ := by
  obtain ⟨c, hc, hb⟩ := h
  rcases quartet_get? hc with ⟨rfl, rfl⟩ | ⟨rfl, rfl⟩ | ⟨rfl, rfl⟩ | ⟨rfl, rfl⟩
  · exact Or.inl ⟨rfl, eq_of_mem_dependencies_ref hb⟩
  · exact Or.inr (Or.inl ⟨rfl, eq_of_mem_dependencies_ref hb⟩)
  · exact Or.inr (Or.inr ⟨rfl, eq_of_mem_dependencies_ref hb⟩)
  · cases hb

/-- Nothing leads from the two formulas that refer to each other to the rest of the sheet. -/
theorem quartet_loop_closed {b : Address} (h : ReflTransGen quartet.Reads ⟨0, 2⟩ b) :
    b = ⟨0, 2⟩ ∨ b = ⟨0, 3⟩ := by
  induction h with
  | refl => exact Or.inl rfl
  | @tail x y _ hxy ih =>
    rcases quartet_reads hxy with ⟨_, hy⟩ | ⟨_, hy⟩ | ⟨rfl, _⟩
    · exact Or.inl hy
    · exact Or.inr hy
    · simp at ih

theorem quartet_second_reached {b : Address} (h : ReflTransGen quartet.Reads ⟨0, 1⟩ b) :
    b = ⟨0, 1⟩ ∨ b = ⟨0, 0⟩ := by
  induction h with
  | refl => exact Or.inl rfl
  | @tail x y _ hxy ih =>
    rcases quartet_reads hxy with ⟨rfl, _⟩ | ⟨rfl, _⟩ | ⟨_, hy⟩
    · simp at ih
    · simp at ih
    · exact Or.inr hy

/-- A loop and a formula that refers to it come to the same whatever the other cells hold. -/
theorem evaluation_reads_dependencies_only_quartet :
    quartet.AgreeFrom (quartet.set ⟨0, 0⟩ (.formula "=" none)) ⟨0, 2⟩ ∧
      quartet.evaluateCell Policy.standard ⟨0, 2⟩ true =
        (quartet.set ⟨0, 0⟩ (.formula "=" none)).evaluateCell Policy.standard ⟨0, 2⟩ true ∧
      quartet.evaluateFormula Policy.standard "=C1" true =
        (quartet.set ⟨0, 0⟩ (.formula "=" none)).evaluateFormula Policy.standard "=C1" true := by
  have hagree : quartet.AgreeFrom (quartet.set ⟨0, 0⟩ (.formula "=" none)) ⟨0, 2⟩ := by
    intro b hb
    rcases quartet_loop_closed hb with rfl | rfl
    · exact (get?_set_of_ne (by decide)).symm
    · exact (get?_set_of_ne (by decide)).symm
  have hreads : (Expr.read "=C1").toOption.map (·.dependencies 1 4) = some [⟨0, 2⟩] := by
    decide +kernel
  obtain ⟨hcell, hformula⟩ := evaluation_reads_dependencies_only (s := quartet)
    (t := quartet.set ⟨0, 0⟩ (.formula "=" none)) rfl rfl Policy.standard true
  refine ⟨hagree, hcell _ hagree, hformula _ ?_⟩
  intro e he a ha
  rw [he] at hreads
  have hdeps : e.dependencies quartet.rows quartet.cols = [⟨0, 2⟩] := Option.some.inj hreads
  rw [hdeps] at ha
  obtain rfl := List.mem_singleton.mp ha
  exact hagree

/-- A formula that only refers to a cell shows the value that stands there. -/
theorem outcome_of_ref {s : Sheet} {policy : Policy} {a : Address} {source : String}
    {r : Reference} {v : Value} (hcell : s.get? a = some (.formula source (some (.ref r))))
    (ha : s.contains a = true) (hr : s.contains r.address = true) (hne : a ≠ r.address)
    (hv : s.get? r.address = some (.literal v)) :
    (s.evaluateCell policy a false).outcome = .ok v := by
  have hactive : ¬ r.address ∈ (Std.ExtTreeSet.ofList [a] : AddressSet) := by simpa using hne
  have hread : (s.readCell false (Std.ExtTreeSet.ofList [a]) r.address).result = .ok v := by
    rw [readCell_untraced hr hactive, hv]
    rfl
  rw [evaluateCell, ha, hcell]
  simp only [evaluateExpr, Expr.eval, surroundings, hread]
  rfl

end Sheet

end Recalc
