import Recalc.Proofs.Evaluation.InPlace

namespace Recalc

/-- A cell is entered only while it does not wait itself, and turned away only while it does. -/
def Visit.Sound (v : Visit) : Prop :=
  if v.entered then (v.cell :: v.waiting).Nodup else v.cell ∈ v.waiting

/-- The guarded cells are those that wait, and each of them waits once. -/
structure Guards (g : AddressSet) (waiting : List Address) : Prop where
  mem_iff : ∀ b, b ∈ g ↔ b ∈ waiting
  nodup : waiting.Nodup

theorem Guards.insert {g : AddressSet} {waiting : List Address} {a : Address}
    (h : Guards g waiting) (ha : a ∉ g) : Guards (g.insert a) (a :: waiting) := by
  constructor
  · intro b
    rw [Std.ExtTreeSet.mem_insert, Std.compare_eq_iff_eq, List.mem_cons, h.mem_iff, eq_comm]
  · exact List.nodup_cons.mpr ⟨fun hw => ha ((h.mem_iff a).mpr hw), h.nodup⟩

namespace Sheet

open RunInPlace

theorem follows_readInPlace (s : Sheet) (traced : Bool) (depth : Nat) (waiting : List Address)
    (g : AddressSet) (a : Address) :
    (s.readInPlace traced depth waiting a).Follows
      (depth ≤ (AddressMap.outside s.cells g).length) g (fun v => Guards g waiting → v.Sound)
      (s.readCell traced g a) := by
  induction depth generalizing waiting g a with
  | zero => exact .tooDeep (Nat.zero_le _)
  | succ depth ih =>
    rw [readCell_eq, Sheet.readInPlace]
    cases hin : s.contains a with
    | false => exact .throw _
    | true =>
      refine Follows.get fun w hw => ?_
      rw [hw]
      split
      next ha =>
        exact .visit (fun h => (h.mem_iff a).mp ha) (.throw _)
      next ha =>
        refine .visit (fun h => (h.insert ha).nodup) (.noted (.guarding ?_ ha))
        cases hc : s.get? a with
        | none => exact .pure _
        | some c =>
          -- One cell more is guarded, so fewer are left to be.
          have hless := AddressMap.outside_insert_lt (mem_cells_of_get? hc) ha
          refine Cell.follows_readInPlace ⟨fun b => ?_, rfl, rfl⟩ a (some c)
          exact (ih (a :: waiting) (g.insert a) b).mono (fun hd => by omega)
            fun v hv h => hv (h.insert ha)

theorem length_outside_le (s : Sheet) (g : AddressSet) :
    (AddressMap.outside s.cells g).length ≤ s.size := by
  have hkeys : s.cells.keys.length = s.size := Std.ExtTreeMap.length_keys
  rw [← hkeys]
  exact List.length_filter_le _ _

theorem follows_surroundingsInPlace (s : Sheet) (traced : Bool) (depth : Nat)
    (waiting : List Address) (g : AddressSet) :
    (s.surroundingsInPlace traced depth waiting).Follows (depth ≤ s.size) g
      (fun v => Guards g waiting → v.Sound) (s.surroundings traced g) := by
  refine ⟨fun a => ?_, rfl, rfl⟩
  have hle := s.length_outside_le g
  exact (follows_readInPlace s traced depth waiting g a).mono (fun hd => by omega) fun _ hv => hv

theorem exists_evaluateExprInPlace (s : Sheet) (policy : Policy) (traced : Bool) {depth : Nat}
    (hdepth : s.size < depth) {waiting : List Address} (hwaiting : waiting.Nodup) (e : Expr) :
    ∃ visits, s.evaluateExprInPlace policy traced depth waiting e =
        some (s.evaluateExpr policy traced (Std.ExtTreeSet.ofList waiting) e, visits) ∧
      ∀ v ∈ visits, v.Sound := by
  have hguards : Guards (Std.ExtTreeSet.ofList waiting) waiting :=
    ⟨fun b => by simp, hwaiting⟩
  have hfollows := Expr.follows_evalInPlace
    (follows_surroundingsInPlace s traced depth waiting (Std.ExtTreeSet.ofList waiting)) e
  obtain ⟨w, hrun, _, hsteps, visits, hvisits, hsound⟩ :=
    Follows.exists_run (w := ⟨Std.ExtTreeSet.ofList waiting, [], []⟩) hfollows (by omega)
  refine ⟨visits, ?_, fun v hv => hsound v hv hguards⟩
  rw [evaluateExprInPlace, hrun]
  simp [hsteps, hvisits, evaluateExpr]

theorem exists_evaluateCellInPlace (s : Sheet) (policy : Policy) (traced : Bool) {depth : Nat}
    (hdepth : s.size < depth) (a : Address) :
    ∃ visits, s.evaluateCellInPlace policy a traced depth =
        some (s.evaluateCell policy a traced, visits) ∧ ∀ v ∈ visits, v.Sound := by
  unfold evaluateCellInPlace evaluateCell
  cases s.contains a with
  | false => exact ⟨[], rfl, by simp⟩
  | true =>
    cases s.get? a with
    | none => exact ⟨[], rfl, by simp⟩
    | some c =>
      cases c with
      | literal v => exact ⟨[], rfl, by simp⟩
      | error f => exact ⟨[], rfl, by simp⟩
      | formula source expr =>
        cases expr with
        | none => exact ⟨[], rfl, by simp⟩
        | some e => exact exists_evaluateExprInPlace s policy traced hdepth (by simp) e

theorem exists_evaluateFormulaInPlace (s : Sheet) (policy : Policy) (traced : Bool) {depth : Nat}
    (hdepth : s.size < depth) (source : String) :
    ∃ visits, s.evaluateFormulaInPlace policy source traced depth =
        some (s.evaluateFormula policy source traced, visits) ∧ ∀ v ∈ visits, v.Sound := by
  unfold evaluateFormulaInPlace evaluateFormula
  cases Expr.read source with
  | error err => exact ⟨[], rfl, by simp⟩
  | ok e => exact exists_evaluateExprInPlace s policy traced hdepth List.nodup_nil e

/-- An evaluation ends on every sheet, however its cells refer to each other, with what it is to
give. No cell is entered while it waits, and only then is it turned away. Reading a cell and
evaluating a formula leave the guard as it was, also where they fail, so that the same cell can be
read again. -/
theorem evaluation_ends_and_restores_guard (s : Sheet) (policy : Policy) (traced : Bool)
    {depth : Nat} (hdepth : s.size < depth) :
    (∀ a, ∃ visits, s.evaluateCellInPlace policy a traced depth =
        some (s.evaluateCell policy a traced, visits) ∧ ∀ v ∈ visits, v.Sound) ∧
      (∀ source, ∃ visits, s.evaluateFormulaInPlace policy source traced depth =
        some (s.evaluateFormula policy source traced, visits) ∧ ∀ v ∈ visits, v.Sound) ∧
      (∀ levels waiting, (∀ a, (s.readInPlace traced levels waiting a).KeepsGuard) ∧
        ∀ e, (Expr.evalInPlace (s.surroundingsInPlace traced levels waiting) e).KeepsGuard) ∧
      ∀ waiting a w, ∃ result w' w'',
        (s.readInPlace traced depth waiting a).run.run w = some (result, w') ∧
          (s.readInPlace traced depth waiting a).run.run w' = some (result, w'') := by
  refine ⟨exists_evaluateCellInPlace s policy traced hdepth,
    exists_evaluateFormulaInPlace s policy traced hdepth,
    fun levels waiting => ⟨fun a => ?_, fun e => ?_⟩, ?_⟩
  · exact Follows.keepsGuard fun g => follows_readInPlace s traced levels waiting g a
  · exact Follows.keepsGuard fun g =>
      Expr.follows_evalInPlace (follows_surroundingsInPlace s traced levels waiting g) e
  · intro waiting a w
    have hle := s.length_outside_le w.guarded
    have hfollows := follows_readInPlace s traced depth waiting w.guarded a
    obtain ⟨w', hrun, hguarded, _⟩ := hfollows.exists_run (by omega)
    rw [← hguarded] at hfollows hle
    obtain ⟨w'', hagain, _⟩ := hfollows.exists_run (w := w') (by omega)
    refine ⟨_, w', w'', hrun, ?_⟩
    rw [hagain, hguarded]

/-- The two formulas that refer to each other are no obstacle. -/
theorem evaluation_ends_and_restores_guard_quartet :
    quartet.size < 5 ∧
      ∃ visits, quartet.evaluateCellInPlace Policy.standard ⟨0, 2⟩ true 5 =
          some (quartet.evaluateCell Policy.standard ⟨0, 2⟩ true, visits) ∧
        ∀ v ∈ visits, v.Sound := by
  have hdepth : quartet.size < 5 := by decide +kernel
  obtain ⟨hcell, -⟩ := evaluation_ends_and_restores_guard quartet Policy.standard true hdepth
  exact ⟨hdepth, hcell ⟨0, 2⟩⟩

example : (quartet.evaluateCellInPlace Policy.standard ⟨0, 2⟩ true 5).map (·.2) =
    some [⟨⟨0, 3⟩, [⟨0, 2⟩], true⟩, ⟨⟨0, 2⟩, [⟨0, 3⟩, ⟨0, 2⟩], false⟩] := by
  rfl

end Sheet

end Recalc
