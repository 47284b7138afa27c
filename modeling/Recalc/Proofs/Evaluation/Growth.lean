import Recalc.Proofs.Evaluation.Loops

namespace Recalc

namespace Run

variable {α β : Type} {r r' : Run α}

/-- The run does not end at a place outside the sheet. -/
def StaysInside (r : Run α) : Prop := ∀ a, r.result ≠ .error (.outOfBounds a)

/-- `r'` takes the steps of `r` and comes to the same, if `r` stays inside the sheet. -/
def Extends (r' r : Run α) : Prop := r.StaysInside → r' = r

theorem Extends.refl (r : Run α) : r.Extends r := fun _ => rfl

theorem not_staysInside_outOfBounds (a : Address) :
    ¬ (fail (.outOfBounds a) : Run α).StaysInside := fun h => h a rfl

theorem Extends.bind {f f' : α → Run β} (hr : r'.Extends r) (hf : ∀ a, (f' a).Extends (f a)) :
    (r' >>= f').Extends (r >>= f) := by
  intro hinside
  have hfirst : r.StaysInside := fun a ha => hinside a (result_bind_of_error ha)
  rw [hr hfirst]
  cases hresult : r.result with
  | error e =>
    obtain ⟨_, steps⟩ := r
    cases hresult
    rfl
  | ok a =>
    have hrest : (f a).StaysInside := by
      intro x hx
      exact hinside x ((result_bind_of_ok hresult).trans hx)
    have hsame := hf a hrest
    obtain ⟨_, steps⟩ := r
    cases hresult
    change (⟨(f' a).result, steps ++ (f' a).steps⟩ : Run β) = ⟨(f a).result, steps ++ (f a).steps⟩
    rw [hsame]

theorem Extends.noted {r r' : Run Value} (hr : r'.Extends r) (keep : Bool) (subject : Expr) :
    (Run.noted keep subject r').Extends (Run.noted keep subject r) := by
  intro hinside
  have hr' : r.StaysInside := by
    intro a ha
    exact hinside a ((result_noted keep subject r).trans ha)
  rw [hr hr']

theorem Extends.forEach {f f' : Nat → Run β} (hf : ∀ i, (f' i).Extends (f i)) (start count : Nat) :
    (Run.forEach f' start count).Extends (Run.forEach f start count) := by
  induction count generalizing start with
  | zero => exact .refl _
  | succ count ih =>
    rw [Run.forEach, Run.forEach]
    exact (hf start).bind fun b => (ih (start + 1)).bind fun bs => .refl _

end Run

/-- `env'` shows what `env` does, and perhaps more places. -/
structure Surroundings.Extends (env' env : Surroundings) : Prop where
  traced : env'.traced = env.traced
  contains : ∀ a, env.contains a = true → env'.contains a = true
  read : ∀ a, (env'.read a).Extends (env.read a)

section

variable {env env' : Surroundings}

theorem Surroundings.Extends.readRect (h : env'.Extends env) (r : Rect) :
    (env'.readRect r).Extends (env.readRect r) := by
  rw [Surroundings.readRect, Surroundings.readRect]
  by_cases hin : env.contains r.bottomRight = true
  · rw [if_pos hin, if_pos (h.contains _ hin)]
    have hrow : ∀ row, (Run.forEach (fun col => env'.read ⟨row, col⟩) r.left r.width).Extends
        (Run.forEach (fun col => env.read ⟨row, col⟩) r.left r.width) :=
      fun row => Run.Extends.forEach (fun col => h.read ⟨row, col⟩) _ _
    exact (Run.Extends.forEach hrow _ _).bind fun rows => .refl _
  · rw [if_neg hin]
    exact fun hinside => (Run.not_staysInside_outOfBounds _ hinside).elim

mutual

/-- More places do not change what a formula comes to, as long as it found all that it read. -/
theorem Expr.eval_extends (h : env'.Extends env) (e : Expr) :
    (e.eval env').Extends (e.eval env) := by
  cases e with
  | number | text | bool | range =>
    simp only [Expr.eval]
    exact .refl _
  | ref r =>
    simp only [Expr.eval]
    exact h.read r.address
  | call f args =>
    rw [Expr.eval, Expr.eval, h.traced]
    refine Run.Extends.noted ?_ _ _
    cases Builtin.lookup? f with
    | none => exact .refl _
    | some builtin =>
      have hargs := Expr.evalArguments_extends h builtin.acceptsRanges args
      exact (Run.Extends.refl _).bind fun _ => hargs.bind fun values => .refl _
  | binary op left right =>
    rw [Expr.eval, Expr.eval, h.traced]
    have hleft := Expr.eval_extends h left
    have hright := Expr.eval_extends h right
    exact hleft.bind fun x => hright.bind fun y => .refl _
  | neg operand =>
    rw [Expr.eval, Expr.eval, h.traced]
    have hoperand := Expr.eval_extends h operand
    exact hoperand.bind fun x => .refl _

theorem Expr.evalArguments_extends (h : env'.Extends env) (ranges : Bool) (es : List Expr) :
    (Expr.evalArguments env' ranges es).Extends (Expr.evalArguments env ranges es) := by
  cases es with
  | nil =>
    simp only [Expr.evalArguments]
    exact .refl _
  | cons e es =>
    have hhere := Expr.eval_extends h e
    have hlater := Expr.evalArguments_extends h ranges es
    by_cases hrange : ∃ first last, e = .range first last ∧ ranges = true
    · obtain ⟨first, last, rfl, rfl⟩ := hrange
      have hrect := h.readRect (Rect.spanning first.address last.address)
      rw [Expr.evalArguments, Expr.evalArguments]
      exact hrect.bind fun here => hlater.bind fun later => .refl _
    · have hplain : ∀ first last, e = .range first last → ranges = true → False :=
        fun first last he hr => hrange ⟨first, last, he, hr⟩
      rw [Expr.evalArguments, Expr.evalArguments]
      · exact hhere.bind fun v => (Run.Extends.refl _).bind fun here =>
          hlater.bind fun later => .refl _
      · exact hplain
      · exact hplain

end

end

namespace Sheet

/-- The sheet `t` holds the cells of `s` and has no fewer rows and columns. -/
structure Extends (t s : Sheet) : Prop where
  rows : s.rows ≤ t.rows
  cols : s.cols ≤ t.cols
  cells : ∀ a, t.get? a = s.get? a

variable {s t : Sheet} {traced : Bool} {active : AddressSet} {a : Address}

theorem extends_grown (hrows : s.rows ≤ Address.limit) (hcols : s.cols ≤ Address.limit)
    (moreRows moreCols : Nat) : ((s.extendRows moreRows).extendCols moreCols).Extends s := by
  have hrows' : s.rows ≤ min (s.rows + moreRows) Address.limit := by omega
  have hcols' : s.cols ≤ min (s.cols + moreCols) Address.limit := by omega
  exact ⟨hrows', hcols', fun a => rfl⟩

theorem Extends.contains (h : t.Extends s) (ha : s.contains a = true) : t.contains a = true := by
  have hrows := h.rows
  have hcols := h.cols
  simp only [Sheet.contains, Address.within, Bool.and_eq_true, decide_eq_true_eq] at ha ⊢
  omega

theorem Extends.surroundings (h : t.Extends s)
    (hread : ∀ b, (t.readCell traced active b).Extends (s.readCell traced active b)) :
    (t.surroundings traced active).Extends (s.surroundings traced active) :=
  ⟨rfl, fun _ => h.contains, hread⟩

theorem Extends.readCell (h : t.Extends s) (traced : Bool) (active : AddressSet) (a : Address) :
    (t.readCell traced active a).Extends (s.readCell traced active a) := by
  induction hn : (AddressMap.outside s.cells active).length using Nat.strongRecOn
    generalizing active a with
  | ind n ih =>
    cases hin : s.contains a with
    | false =>
      rw [readCell_of_not_contains hin]
      exact fun hinside => (Run.not_staysInside_outOfBounds a hinside).elim
    | true =>
      rw [readCell_eq s, readCell_eq t, hin, h.contains hin, h.cells a]
      by_cases hactive : a ∈ active
      · rw [if_pos hactive, if_pos hactive]
        exact .refl _
      · rw [if_neg hactive, if_neg hactive]
        refine Run.Extends.noted ?_ _ _
        cases hc : s.get? a with
        | none => exact .refl _
        | some c =>
          cases c with
          | literal v => exact .refl _
          | error f => exact .refl _
          | formula source expr =>
            cases expr with
            | none => exact .refl _
            | some e =>
              -- Cells outside `s` may be read in `t`, but only after `s` has given up.
              have hless := AddressMap.outside_insert_lt (mem_cells_of_get? hc) hactive
              exact Expr.eval_extends (h.surroundings fun b => ih _ (hn ▸ hless) _ b rfl) e

theorem Extends.eval (h : t.Extends s) (traced : Bool) (active : AddressSet) (e : Expr) :
    (e.eval (t.surroundings traced active)).Extends (e.eval (s.surroundings traced active)) :=
  Expr.eval_extends (h.surroundings fun b => h.readCell traced active b) e

theorem Extends.evaluateExpr_eq (h : t.Extends s) (policy : Policy) {e : Expr}
    (hinside : (e.eval (s.surroundings traced active)).StaysInside) :
    t.evaluateExpr policy traced active e = s.evaluateExpr policy traced active e := by
  unfold evaluateExpr
  rw [h.eval traced active e hinside]

theorem Extends.evaluateCell_eq (h : t.Extends s) (policy : Policy) (ha : s.contains a = true)
    (hinside : ∀ e, s.Holds a e →
      (e.eval (s.surroundings traced (Std.ExtTreeSet.ofList [a]))).StaysInside) :
    t.evaluateCell policy a traced = s.evaluateCell policy a traced := by
  rw [evaluateCell, evaluateCell, ha, h.contains ha, h.cells a]
  cases hc : s.get? a with
  | none => rfl
  | some c =>
    cases c with
    | literal v => rfl
    | error f => rfl
    | formula source expr =>
      cases expr with
      | none => rfl
      | some e => exact h.evaluateExpr_eq policy (hinside e ⟨source, hc⟩)

theorem Extends.evaluateFormula_eq (h : t.Extends s) (policy : Policy) {source : String}
    (hinside : ∀ e, Expr.read source = .ok e → (e.eval (s.surroundings traced ∅)).StaysInside) :
    t.evaluateFormula policy source traced = s.evaluateFormula policy source traced := by
  unfold evaluateFormula
  cases he : Expr.read source with
  | error err => rfl
  | ok e => exact h.evaluateExpr_eq policy (hinside e he)

/-- More rows and columns change no outcome, except where an evaluation ended at a place outside
the sheet: all others come to the same by the same steps. -/
theorem evaluation_of_grown (s : Sheet) (hrows : s.rows ≤ Address.limit)
    (hcols : s.cols ≤ Address.limit) (moreRows moreCols : Nat) (policy : Policy) (traced : Bool) :
    (∀ a, s.contains a = true →
        (∀ e, s.Holds a e →
          (e.eval (s.surroundings traced (Std.ExtTreeSet.ofList [a]))).StaysInside) →
        ((s.extendRows moreRows).extendCols moreCols).evaluateCell policy a traced =
          s.evaluateCell policy a traced) ∧
      ∀ source,
        (∀ e, Expr.read source = .ok e → (e.eval (s.surroundings traced ∅)).StaysInside) →
        ((s.extendRows moreRows).extendCols moreCols).evaluateFormula policy source traced =
          s.evaluateFormula policy source traced := by
  have h := extends_grown hrows hcols moreRows moreCols
  exact ⟨fun a ha hinside => h.evaluateCell_eq policy ha hinside,
    fun source hinside => h.evaluateFormula_eq policy hinside⟩

theorem quartet_loop_circular (hthird : ⟨0, 2⟩ ∈ active) (hfourth : ⟨0, 3⟩ ∉ active) :
    (quartet.readCell traced active ⟨0, 3⟩).result = .error (.circular ⟨0, 2⟩) := by
  have hcell : quartet.get? ⟨0, 3⟩ =
    some (.formula "=C1" (some (.ref ⟨⟨0, 2⟩, ⟨false, false⟩⟩))) := rfl
  rw [readCell_of_not_active rfl hfourth, hcell]
  exact readCell_of_active rfl (by simp [hthird])

/-- A loop is reported the same however far the sheet grows. If the sheet ends before the last cell
of the loop, the loop is found only once the sheet has grown. -/
theorem evaluation_of_grown_quartet :
    ((quartet.extendRows 2).extendCols 3).evaluateCell Policy.standard ⟨0, 2⟩ true =
        quartet.evaluateCell Policy.standard ⟨0, 2⟩ true ∧
      ((quartet.extendRows 2).extendCols 3).evaluateFormula Policy.standard "=C1" true =
        quartet.evaluateFormula Policy.standard "=C1" true ∧
      (({ quartet with cols := 3 } : Sheet).readCell false ∅ ⟨0, 2⟩).result =
        .error (.outOfBounds ⟨0, 3⟩) ∧
      ((({ quartet with cols := 3 } : Sheet).extendCols 1).readCell false ∅ ⟨0, 2⟩).result =
        .error (.circular ⟨0, 2⟩) := by
  have hthird : quartet.get? ⟨0, 2⟩ =
    some (.formula "=D1" (some (.ref ⟨⟨0, 3⟩, ⟨false, false⟩⟩))) := rfl
  have hread : Expr.read "=C1" = .ok (.ref ⟨⟨0, 2⟩, ⟨false, false⟩⟩) := by
    with_unfolding_all rfl
  have hloop : ∀ traced, (quartet.readCell traced ∅ ⟨0, 2⟩).result = .error (.circular ⟨0, 2⟩) := by
    intro traced
    rw [readCell_of_not_active rfl (by simp), hthird]
    exact quartet_loop_circular (by simp) (by simp)
  have hbeyond : (({ quartet with cols := 3 } : Sheet).readCell false ∅ ⟨0, 2⟩).result =
      .error (.outOfBounds ⟨0, 3⟩) := by
    rw [readCell_of_not_active rfl (by simp)]
    change (Cell.read _ _ (quartet.get? ⟨0, 2⟩)).result = _
    rw [hthird]
    exact congrArg Run.result (readCell_of_not_contains rfl)
  obtain ⟨hcell, hformula⟩ :=
    evaluation_of_grown quartet (by decide) (by decide) 2 3 Policy.standard true
  refine ⟨hcell _ rfl ?_, hformula _ ?_, hbeyond, hloop false⟩
  · rintro e ⟨source, he⟩ x hx
    cases hthird.symm.trans he
    have hcircular : (quartet.readCell true (Std.ExtTreeSet.ofList [(⟨0, 2⟩ : Address)])
        ⟨0, 3⟩).result = .error (.circular ⟨0, 2⟩) := quartet_loop_circular (by simp) (by simp)
    cases hcircular.symm.trans hx
  · intro e he x hx
    cases hread.symm.trans he
    cases (hloop true).symm.trans hx

end Sheet

end Recalc
