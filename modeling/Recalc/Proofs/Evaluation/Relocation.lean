import Recalc.Proofs.Evaluation.Locality

namespace Recalc.Sheet

open Relation

variable {s t : Sheet} {policy : Policy} {traced : Bool} {a a' : Address} {p : Address → Prop}

/-- A formula comes to the same by the same steps, whichever cells wait for it, if it leads to none
of them. -/
theorem AgreeOn.eval_eq_of_not_reached (h : s.AgreeOn t p) {active active' : AddressSet}
    (hactive : ∀ b ∈ active, ¬ p b) (hactive' : ∀ b ∈ active', ¬ p b) {e : Expr}
    (hnames : ∀ b, e.Names b → s.contains b = true → p b) :
    e.eval (s.surroundings traced active) = e.eval (t.surroundings traced active') := by
  refine h.eval_eq hnames fun b hb => readCell_congr h traced (fun c hc => ?_) hb
  exact iff_of_false (fun hin => hactive c hin hc) (fun hin => hactive' c hin hc)

theorem not_of_mem_singleton (ha : ¬ p a) :
    ∀ b ∈ (Std.ExtTreeSet.ofList [a] : AddressSet), ¬ p b := by
  intro b hb
  obtain rfl : a = b := by simpa using hb
  exact ha

/-- What stands in a cell comes to the same in another cell, also on a sheet that differs
elsewhere, if it leads to neither of the cells. -/
theorem AgreeOn.outcome_eq (h : s.AgreeOn t p) (hcell : t.get? a' = s.get? a)
    (hin : s.contains a = true) (hin' : s.contains a' = true) (ha : ¬ p a) (ha' : ¬ p a')
    (hreads : ∀ b, s.Reads a b → p b) :
    (t.evaluateCell policy a' traced).outcome = (s.evaluateCell policy a traced).outcome := by
  unfold evaluateCell
  rw [← h.contains, hin, hin', hcell]
  cases hc : s.get? a with
  | none => rfl
  | some c =>
    cases c with
    | literal v => rfl
    | error f => rfl
    | formula source expr =>
      cases expr with
      | none => rfl
      | some e =>
        have hnames : ∀ b, e.Names b → s.contains b = true → p b := fun b hb hinb =>
          hreads b ⟨_, hc, mem_dependencies.mpr ⟨e, rfl, hb, hinb⟩⟩
        have heval : e.eval (s.surroundings traced (Std.ExtTreeSet.ofList [a])) =
            e.eval (t.surroundings traced (Std.ExtTreeSet.ofList [a'])) :=
          h.eval_eq_of_not_reached (not_of_mem_singleton ha) (not_of_mem_singleton ha') hnames
        exact congrArg (fun run => run.result.mapError (·.failure policy)) heval.symm

/-- A formula that stands in no cell comes to the same by the same steps as in a cell that it does
not lead to. -/
theorem evaluateFormula_eq_evaluateCell (ha : s.contains a = true) {source : String} {e : Expr}
    (he : Expr.read source = .ok e)
    (hunread : ∀ b ∈ e.dependencies s.rows s.cols, ¬ ReflTransGen s.Reads b a) :
    s.evaluateFormula policy source traced =
      (s.set a (.ofFormula source)).evaluateCell policy a traced := by
  have hcell : (s.set a (.ofFormula source)).get? a = some (.formula source (some e)) := by
    rw [get?_set, if_pos rfl, Cell.ofFormula, he]
    rfl
  have hagree : s.AgreeOn (s.set a (.ofFormula source))
      fun b => ∃ x ∈ e.dependencies s.rows s.cols, ReflTransGen s.Reads x b := by
    have hrows : s.rows = (s.set a (.ofFormula source)).rows := rfl
    have hcols : s.cols = (s.set a (.ofFormula source)).cols := rfl
    refine agreeOn_reached hrows hcols fun x hx b hxb => ?_
    have hne : b ≠ a := by
      rintro rfl
      exact hunread x hx hxb
    exact (get?_set_of_ne hne).symm
  have hempty : ∀ b ∈ (∅ : AddressSet),
      ¬ ∃ x ∈ e.dependencies s.rows s.cols, ReflTransGen s.Reads x b := by simp
  have heval : e.eval (s.surroundings traced ∅) =
      e.eval ((s.set a (.ofFormula source)).surroundings traced (Std.ExtTreeSet.ofList [a])) :=
    hagree.eval_eq_of_not_reached hempty
      (not_of_mem_singleton fun ⟨x, hx, hxa⟩ => hunread x hx hxa)
      fun b hb hin => ⟨b, Expr.mem_dependencies.mpr ⟨hb, hin⟩, .refl⟩
  have hin : (s.set a (.ofFormula source)).contains a = true := ha
  rw [evaluateFormula, he, evaluateCell, hin, hcell]
  simp only [evaluateExpr, heval]
  rfl

/-- A formula that stands in no cell is evaluated as if it stood in a cell that it does not lead to:
it has the same value or an error of the same code, and if it can be read all of the outcome is the
same, with the steps that led there. -/
theorem evaluateFormula_as_in_unread_cell (s : Sheet) (policy : Policy) (traced : Bool)
    (source : String) {a : Address} (ha : s.contains a = true)
    (hunread : ∀ e, Expr.read source = .ok e →
      ∀ b ∈ e.dependencies s.rows s.cols, ¬ ReflTransGen s.Reads b a) :
    (s.evaluateFormula policy source traced).outcome.mapError (·.code) =
        ((s.set a (.ofFormula source)).evaluateCell policy a traced).outcome.mapError (·.code) ∧
      ∀ e, Expr.read source = .ok e →
        s.evaluateFormula policy source traced =
          (s.set a (.ofFormula source)).evaluateCell policy a traced := by
  have hwhole : ∀ e, Expr.read source = .ok e → s.evaluateFormula policy source traced =
      (s.set a (.ofFormula source)).evaluateCell policy a traced :=
    fun e he => evaluateFormula_eq_evaluateCell ha he (hunread e he)
  refine ⟨?_, hwhole⟩
  cases he : Expr.read source with
  | ok e => rw [hwhole e he]
  | error err =>
    have hcell : (s.set a (.ofFormula source)).get? a = some (.formula source none) := by
      rw [get?_set, if_pos rfl, Cell.ofFormula, he]
      rfl
    have hin : (s.set a (.ofFormula source)).contains a = true := ha
    rw [evaluateFormula, he, evaluateCell, hin, hcell]
    rfl

/-- A formula beside a loop is evaluated as in a cell of the loop, which it breaks there. -/
theorem evaluateFormula_as_in_unread_cell_quartet :
    quartet.contains ⟨0, 2⟩ = true ∧ TransGen quartet.Reads ⟨0, 2⟩ ⟨0, 2⟩ ∧
      quartet.evaluateFormula Policy.standard "=B1" true =
        (quartet.set ⟨0, 2⟩ (.ofFormula "=B1")).evaluateCell Policy.standard ⟨0, 2⟩ true := by
  have hread : Expr.read "=B1" = .ok (.ref ⟨⟨0, 1⟩, ⟨false, false⟩⟩) := by
    with_unfolding_all rfl
  have hthird : quartet.Reads ⟨0, 2⟩ ⟨0, 3⟩ :=
    ⟨_, rfl, mem_dependencies.mpr ⟨_, rfl, .ref rfl, rfl⟩⟩
  have hfourth : quartet.Reads ⟨0, 3⟩ ⟨0, 2⟩ :=
    ⟨_, rfl, mem_dependencies.mpr ⟨_, rfl, .ref rfl, rfl⟩⟩
  have hunread : ∀ e, Expr.read "=B1" = .ok e →
      ∀ b ∈ e.dependencies quartet.rows quartet.cols, ¬ ReflTransGen quartet.Reads b ⟨0, 2⟩ := by
    intro e he b hb hreach
    cases hread.symm.trans he
    obtain ⟨hname, -⟩ := Expr.mem_dependencies.mp hb
    obtain ⟨rfl⟩ := hname
    rcases quartet_second_reached hreach with h | h <;> cases h
  exact ⟨rfl, .tail (.single hthird) hfourth,
    (evaluateFormula_as_in_unread_cell quartet Policy.standard true "=B1" rfl hunread).2 _ hread⟩

end Recalc.Sheet
