import Recalc.Proofs.Document.Loops
import Recalc.Proofs.Graph.Order

namespace Recalc

open Relation

/-- `results` is what has to be evaluated anew after a change of `a`, in an order that respects
what reads what. -/
structure Document.Recalculates (d : Document) (a : Address)
    (results : List (Address × Evaluation)) : Prop where
  first : (results.map (·.1)).head? = some a
  once : (results.map (·.1)).Nodup
  mem_iff : ∀ x, x ∈ results.map (·.1) ↔ x = a ∨ x ∈ d.graph.closure a
  inOrder : ∀ i j (hi : i < results.length) (hj : j < results.length),
    d.graph.Reads results[i].1 results[j].1 → j < i
  evaluated : ∀ x e, (x, e) ∈ results → e = d.evaluateCell x false
  unstalled : (d.graph.evaluationOrder ((d.graph.closure a).toList ++ [a])).stalled = []

namespace Graph

variable {g : Graph} {a : Address}

theorem mem_affected {x : Address} :
    x ∈ (g.closure a).toList ++ [a] ↔ x = a ∨ x ∈ g.closure a := by
  rw [List.mem_append, Std.ExtTreeSet.mem_toList, List.mem_singleton, or_comm]

theorem Sound.mem_order (hg : g.Sound) {x : Address} :
    x ∈ (g.evaluationOrder ((g.closure a).toList ++ [a])).order ↔ x = a ∨ x ∈ g.closure a := by
  have hstalled := stalled_eq_nil hg.mirrored hg.acyclic ((g.closure a).toList ++ [a])
  have hout := @mem_evaluationOrder _ ((g.closure a).toList ++ [a]) x hg.mirrored
  rw [mem_affected, hstalled] at hout
  simpa using hout.symm

/-- The changed cell is the only affected one that reads no other of them. -/
theorem Sound.eq_of_reads_none (hg : g.Sound) {x : Address} (hx : x = a ∨ x ∈ g.closure a)
    (hnone : ∀ y, y = a ∨ y ∈ g.closure a → ¬ g.Reads x y) : x = a := by
  rcases hx with hx | hx
  · exact hx
  · obtain ⟨y, hxy, hya⟩ := TransGen.head'_iff.mp ((mem_closure_iff hg.mirrored).mp hx)
    have hy : y = a ∨ y ∈ g.closure a := by
      rw [mem_closure_iff hg.mirrored]
      rcases reflTransGen_iff_eq_or_transGen.mp hya with heq | hlead
      · exact Or.inl heq.symm
      · exact Or.inr hlead
    exact absurd hxy (hnone y hy)

/-- The order begins with the changed cell, since whatever comes first reads none of the others. -/
theorem Sound.head?_order (hg : g.Sound) (a : Address) :
    (g.evaluationOrder ((g.closure a).toList ++ [a])).order.head? = some a := by
  have hready := evaluationOrder_ready hg.mirrored ((g.closure a).toList ++ [a])
  have hmem := @Sound.mem_order g a hg
  cases horder : (g.evaluationOrder ((g.closure a).toList ++ [a])).order with
  | nil =>
    have ha := hmem.mpr (Or.inl rfl)
    simp [horder] at ha
  | cons x rest =>
    rw [horder] at hready
    have hnone : ∀ y, y = a ∨ y ∈ g.closure a → ¬ g.Reads x y := by
      intro y hy hxy
      have hdone := hready.2.1 y (mem_members.mpr (mem_affected.mpr hy)) hxy
      simp at hdone
    have hx : x = a := by
      refine hg.eq_of_reads_none (hmem.mp ?_) hnone
      rw [horder]
      exact List.mem_cons_self
    rw [hx, List.head?_cons]

end Graph

namespace Document

theorem results_recalculate {d : Document} (hg : d.graph.Sound) (a : Address) (rejected : Bool) :
    (d.recalculate a rejected).results =
      (d.graph.evaluationOrder ((d.graph.closure a).toList ++ [a])).order.map
        fun b => (b, d.evaluateCell b false) := by
  have hstalled := Graph.stalled_eq_nil hg.mirrored hg.acyclic ((d.graph.closure a).toList ++ [a])
  simp only [recalculate, hstalled, List.map_nil, List.append_nil]

theorem recalculates_recalculate {d : Document} (hg : d.graph.Sound) (a : Address)
    (rejected : Bool) : d.Recalculates a (d.recalculate a rejected).results := by
  have hready := Graph.evaluationOrder_ready hg.mirrored ((d.graph.closure a).toList ++ [a])
  have hresults := results_recalculate hg a rejected
  have hcells : (d.recalculate a rejected).results.map (·.1) =
      (d.graph.evaluationOrder ((d.graph.closure a).toList ++ [a])).order := by
    rw [hresults, List.map_map]
    exact List.map_id _
  constructor
  case first =>
    rw [hcells]
    exact hg.head?_order a
  case once =>
    rw [hcells]
    exact hready.nodup
  case mem_iff =>
    intro x
    rw [hcells]
    exact hg.mem_order
  case inOrder =>
    intro i j hi hj hr
    have hlength := congrArg List.length hresults
    rw [List.length_map] at hlength
    simp only [hresults, List.getElem_map] at hr
    refine hready.lt_of_reads (hlength ▸ hi) (hlength ▸ hj) ?_ hr
    rw [Graph.mem_members, Graph.mem_affected]
    exact hg.mem_order.mp (List.getElem_mem _)
  case evaluated =>
    intro x e he
    rw [hresults, List.mem_map] at he
    obtain ⟨b, _, heq⟩ := he
    obtain ⟨rfl, rfl⟩ := Prod.mk.inj heq
    rfl
  case unstalled =>
    exact Graph.stalled_eq_nil hg.mirrored hg.acyclic _

/-- After any history, an edit evaluates the edited cell and all that depend on it, each once and
behind what it reads. -/
theorem edit_recalculates (s : Sheet) (policy : Policy) (ops : List Operation) {e : CellEdit}
    {d : Document} {r : Recalculation} (h : ((load s policy).run ops).edit e = .ok (d, r)) :
    e.cell = .ok r.cell ∧ d.Recalculates r.cell r.results := by
  have hsound := sound_run s policy ops
  obtain ⟨a, hcell, _, ⟨c, rfl, rfl⟩ | ⟨rfl, rfl⟩⟩ := edit_cases h
  · exact ⟨hcell, recalculates_recalculate (hsound.store a c) a _⟩
  · exact ⟨hcell, recalculates_recalculate (hsound.erase a) a _⟩

/-- A truth value and a formula that refers to it. -/
def pairSheet : Sheet :=
  ((Sheet.empty "s" "Sheet" 1 2).set ⟨0, 0⟩ (.literal (.bool false))).set ⟨0, 1⟩
    (.formula "=A1" (some (.ref ⟨⟨0, 0⟩, ⟨false, false⟩⟩)))

theorem edit_recalculates_pair : ∃ d r,
    ((load pairSheet Policy.standard).run [.extendRows 1]).edit
        (.update ⟨0, 0⟩ (.literal (.bool true))) = .ok (d, r) ∧ d.Recalculates r.cell r.results := by
  have hin : ((load pairSheet Policy.standard).run [.extendRows 1]).sheet.contains ⟨0, 0⟩ =
    true := rfl
  exact ⟨_, _, edit_update hin, (edit_recalculates _ _ _ (edit_update hin)).2⟩

end Document

end Recalc
