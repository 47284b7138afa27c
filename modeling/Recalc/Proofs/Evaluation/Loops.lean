import Recalc.Proofs.Evaluation.Locality
import Recalc.Proofs.Evaluation.Result

namespace Recalc.Sheet

open Relation

variable {s : Sheet} {traced : Bool} {active : AddressSet} {a b x : Address}

theorem readCell_of_not_active (hin : s.contains a = true) (ha : a ∉ active) :
    (s.readCell traced active a).result =
      (Cell.read (s.surroundings traced (active.insert a)) a (s.get? a)).result := by
  rw [readCell_eq, hin, if_neg ha]
  exact Run.result_noted _ _ _

theorem readCell_of_active (hin : s.contains a = true) (ha : a ∈ active) :
    (s.readCell traced active a).result = .error (.circular a) := by
  rw [readCell_eq, hin, if_pos ha]
  rfl

theorem contains_of_readCell_ok {v : Value} (h : (s.readCell traced active a).result = .ok v) :
    s.contains a = true := by
  refine Bool.of_not_eq_false fun hout => ?_
  rw [readCell_of_not_contains hout] at h
  cases h

theorem not_active_of_readCell_ok {v : Value} (h : (s.readCell traced active a).result = .ok v) :
    a ∉ active := by
  intro ha
  rw [readCell_of_active (contains_of_readCell_ok h) ha] at h
  cases h

theorem cell_of_readCell_ok {v : Value} (h : (s.readCell traced active a).result = .ok v) :
    (Cell.read (s.surroundings traced (active.insert a)) a (s.get? a)).result = .ok v := by
  rwa [readCell_of_not_active (contains_of_readCell_ok h) (not_active_of_readCell_ok h)] at h

theorem usable_of_readCell_ok {v : Value} {e : Expr}
    (h : (s.readCell traced active a).result = .ok v) (he : s.Holds a e) :
    e.Usable (s.surroundings traced (active.insert a)) false := by
  obtain ⟨source, he⟩ := he
  have hcell := cell_of_readCell_ok h
  rw [he] at hcell
  exact Expr.usable_of_eval e hcell

/-- What a formula with a value names has a value, while one cell more waits. -/
theorem readCell_ok_of_refers {v : Value} (h : (s.readCell traced active a).result = .ok v)
    (hab : s.Refers a b) : ∃ w, (s.readCell traced (active.insert a) b).result = .ok w := by
  obtain ⟨e, he, hb⟩ := hab
  exact (usable_of_readCell_ok h he).reads b hb

theorem readCell_ok_of_reaches {v : Value} (h : (s.readCell traced active a).result = .ok v)
    (hab : ReflTransGen s.Refers a b) :
    ∃ wider : AddressSet, (∀ y ∈ active, y ∈ wider) ∧
      ∃ w, (s.readCell traced wider b).result = .ok w := by
  induction hab with
  | refl => exact ⟨active, fun _ hy => hy, v, h⟩
  | @tail y z _ hyz ih =>
    -- From cell to cell more of them wait, and none stops waiting.
    obtain ⟨wider, hsub, w, hw⟩ := ih
    refine ⟨wider.insert y, ?_, readCell_ok_of_refers hw hyz⟩
    intro u hu
    exact Std.ExtTreeSet.mem_insert.mpr (Or.inr (hsub u hu))

/-- A cell with a value lies on no loop: at the way's end it would wait for itself. -/
theorem loopFree_of_readCell_ok {v : Value} (h : (s.readCell traced active a).result = .ok v) :
    ¬ TransGen s.Refers a a := by
  intro hloop
  obtain ⟨b, hab, hba⟩ := TransGen.head'_iff.mp hloop
  obtain ⟨w, hw⟩ := readCell_ok_of_refers h hab
  obtain ⟨wider, hsub, u, hu⟩ := readCell_ok_of_reaches hw hba
  exact not_active_of_readCell_ok hu (hsub a (by simp))

/-- Nothing about the cell is broken. -/
structure Intact (s : Sheet) (a : Address) : Prop where
  inside : s.contains a = true
  noFailure : ∀ f, s.get? a ≠ some (.error f)
  read : ¬ s.Unread a
  loopFree : ¬ TransGen s.Refers a a
  known : ∀ e f, s.Holds a e → e.Calls f → (Builtin.lookup? f).isSome = true
  placed : ∀ e, s.Holds a e → ¬ e.StrayRange

theorem intact_of_readCell_ok {v : Value} (h : (s.readCell traced active a).result = .ok v) :
    s.Intact a := by
  have hcell := cell_of_readCell_ok h
  constructor
  case inside => exact contains_of_readCell_ok h
  case noFailure =>
    intro f hf
    rw [hf] at hcell
    cases hcell
  case read =>
    rintro ⟨source, hsource⟩
    rw [hsource] at hcell
    cases hcell
  case loopFree => exact loopFree_of_readCell_ok h
  case known => exact fun e f he hf => (usable_of_readCell_ok h he).known f hf
  case placed => exact fun e he => (usable_of_readCell_ok h he).not_strayRange

theorem circular_of_cell {env : Surroundings} {c : Option Cell}
    (h : (Cell.read env a c).result = .error (.circular x)) :
    ∃ source e b, c = some (.formula source (some e)) ∧ e.Names b ∧
      (env.read b).result = .error (.circular x) := by
  unfold Cell.read at h
  split at h
  next => cases h
  next => cases h
  next => cases h
  next => cases h
  next source e =>
    obtain ⟨b, hb, hread⟩ := Expr.circular_of_eval e h
    exact ⟨source, e, b, rfl, hb, hread⟩

/-- A loop that a reading runs into is there, if all cells that wait lead to the cell read. -/
theorem loop_of_readCell (h : (s.readCell traced active a).result = .error (.circular x))
    (hactive : ∀ y ∈ active, TransGen s.Refers y a) :
    ReflTransGen s.Refers a x ∧ TransGen s.Refers x x := by
  induction hn : (AddressMap.outside s.cells active).length using Nat.strongRecOn
    generalizing active a with
  | ind n ih =>
    rw [readCell_eq] at h
    split at h
    next => cases h
    next =>
      split at h
      next ha =>
        cases h
        exact ⟨.refl, hactive _ ha⟩
      next ha =>
        rw [Run.result_noted] at h
        obtain ⟨source, e, b, hc, hb, hread⟩ := circular_of_cell h
        have hab : s.Refers a b := ⟨e, ⟨source, hc⟩, hb⟩
        have hwait : ∀ y ∈ active.insert a, TransGen s.Refers y b := by
          intro y hy
          rcases Std.ExtTreeSet.mem_insert.mp hy with hay | hy
          · obtain rfl := Std.compare_eq_iff_eq.mp hay
            exact .single hab
          · exact (hactive y hy).tail hab
        -- One cell more waits, so fewer are left to do so.
        have hless := AddressMap.outside_insert_lt (mem_cells_of_get? hc) ha
        obtain ⟨hreach, hloop⟩ := ih _ (hn ▸ hless) hread hwait rfl
        exact ⟨.head hab hreach, hloop⟩

theorem outcome_evaluateCell (s : Sheet) (policy : Policy) (a : Address) (traced : Bool) :
    (s.evaluateCell policy a traced).outcome =
      (s.readCell traced ∅ a).result.mapError (·.failure policy) := by
  cases hin : s.contains a with
  | false =>
    rw [readCell_of_not_contains hin, evaluateCell, hin]
    rfl
  | true =>
    rw [readCell_of_not_active hin (by simp), evaluateCell, hin]
    cases hc : s.get? a with
    | none => rfl
    | some c =>
      cases c with
      | literal v => rfl
      | error f => rfl
      | formula source expr =>
        cases expr with
        | none => rfl
        | some e => rfl

/-- A value never comes from anything broken: all that the cell leads to is intact. And where the
evaluation of a cell fails for a loop, the cell leads to the loop that is reported. -/
theorem intact_of_value_and_loop_of_circular (s : Sheet) (policy : Policy) (traced : Bool)
    (a : Address) :
    (∀ v, (s.evaluateCell policy a traced).outcome = .ok v →
        ∀ b, ReflTransGen s.Refers a b → s.Intact b) ∧
      ∀ e x, s.Holds a e →
        (e.eval (s.surroundings traced (Std.ExtTreeSet.ofList [a]))).result = .error (.circular x) →
        ReflTransGen s.Refers a x ∧ TransGen s.Refers x x := by
  constructor
  · intro v hv b hab
    rw [outcome_evaluateCell] at hv
    cases hread : (s.readCell traced ∅ a).result with
    | error err =>
      rw [hread] at hv
      cases hv
    | ok w =>
      obtain ⟨wider, _, u, hu⟩ := readCell_ok_of_reaches hread hab
      exact intact_of_readCell_ok hu
  · intro e x he h
    obtain ⟨b, hb, hread⟩ := Expr.circular_of_eval e h
    have hab : s.Refers a b := ⟨e, he, hb⟩
    have hwait : ∀ y ∈ (Std.ExtTreeSet.ofList [a] : AddressSet), TransGen s.Refers y b := by
      intro y hy
      obtain rfl : a = y := by simpa using hy
      exact .single hab
    obtain ⟨hreach, hloop⟩ := loop_of_readCell hread hwait
    exact ⟨.head hab hreach, hloop⟩

/-- One of the formulas has a value, another one runs into a loop. -/
theorem intact_of_value_and_loop_of_circular_quartet :
    (quartet.evaluateCell Policy.standard ⟨0, 1⟩ false).outcome = .ok (.bool true) ∧
      quartet.Refers ⟨0, 1⟩ ⟨0, 0⟩ ∧ quartet.Intact ⟨0, 0⟩ ∧
      (Expr.eval (quartet.surroundings false (Std.ExtTreeSet.ofList [(⟨0, 2⟩ : Address)]))
        (.ref ⟨⟨0, 3⟩, ⟨false, false⟩⟩)).result = .error (.circular ⟨0, 2⟩) ∧
      TransGen quartet.Refers ⟨0, 2⟩ ⟨0, 2⟩ := by
  have hfirst : quartet.get? ⟨0, 0⟩ = some (.literal (.bool true)) := rfl
  have hsecond : quartet.get? ⟨0, 1⟩ =
    some (.formula "=A1" (some (.ref ⟨⟨0, 0⟩, ⟨false, false⟩⟩))) := rfl
  have hthird : quartet.get? ⟨0, 2⟩ =
    some (.formula "=D1" (some (.ref ⟨⟨0, 3⟩, ⟨false, false⟩⟩))) := rfl
  have hfourth : quartet.get? ⟨0, 3⟩ =
    some (.formula "=C1" (some (.ref ⟨⟨0, 2⟩, ⟨false, false⟩⟩))) := rfl
  have hvalue : (quartet.evaluateCell Policy.standard ⟨0, 1⟩ false).outcome = .ok (.bool true) :=
    outcome_of_ref hsecond rfl rfl (by decide) hfirst
  have hrefers : quartet.Refers ⟨0, 1⟩ ⟨0, 0⟩ := ⟨_, ⟨_, hsecond⟩, .ref rfl⟩
  have hcircular :
      (Expr.eval (quartet.surroundings false (Std.ExtTreeSet.ofList [(⟨0, 2⟩ : Address)]))
        (.ref ⟨⟨0, 3⟩, ⟨false, false⟩⟩)).result = .error (.circular ⟨0, 2⟩) := by
    change (quartet.readCell false (Std.ExtTreeSet.ofList [(⟨0, 2⟩ : Address)]) ⟨0, 3⟩).result = _
    rw [readCell_of_not_active rfl (by simp), hfourth]
    exact readCell_of_active rfl (by simp)
  have hintact := (intact_of_value_and_loop_of_circular quartet Policy.standard false ⟨0, 1⟩).1
  have hreal := (intact_of_value_and_loop_of_circular quartet Policy.standard false ⟨0, 2⟩).2
  exact ⟨hvalue, hrefers, hintact _ hvalue _ (.single hrefers), hcircular,
    (hreal _ _ ⟨_, hthird⟩ hcircular).2⟩

end Recalc.Sheet
