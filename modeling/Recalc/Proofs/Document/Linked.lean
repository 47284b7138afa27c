import Recalc.Proofs.Document.Recalculation
import Recalc.Proofs.Evaluation.Locality

namespace Recalc.Document

open Relation

/-- Where a stored cell is outside of a sheet, the sheet will never grow so far. -/
def KeptOut (s : Sheet) : Prop := ∀ a c, s.get? a = some c →
  (a.row < s.rows ∨ Address.limit ≤ s.rows) ∧ (a.col < s.cols ∨ Address.limit ≤ s.cols)

/-- The graph lacks no link of a stored formula. -/
structure Linked (d : Document) : Prop where
  sound : d.graph.Sound
  keptOut : KeptOut d.sheet
  links : ∀ a b, d.sheet.Reads a b → d.graph.Reads a b

theorem keptOut_of_inside {s : Sheet} (h : ∀ a c, s.get? a = some c → s.contains a = true) :
    KeptOut s := by
  intro a c hc
  have hbounds := Sheet.contains_iff.mp (h a c hc)
  exact ⟨Or.inl hbounds.1, Or.inl hbounds.2⟩

theorem Linked.load {s : Sheet} (policy : Policy) (hkept : KeptOut s)
    (hfree : ∀ a, ¬ TransGen s.Reads a a) : Linked (load s policy) :=
  ⟨Graph.sound_ofSheet s, hkept, fun _ _ h => Graph.ofSheet_reads_of_loopFree hfree h⟩

/-- A route of a grown sheet is a route of the old one, if it ends at a cell that reads on: new
cells of the sheet are empty. -/
theorem leads_of_grown {s t : Sheet} (hcells : t.cells = s.cells)
    (hold : ∀ a c, s.get? a = some c → t.contains a = true → s.contains a = true) {x y z : Address}
    (h : TransGen t.Reads x y) (hy : t.Reads y z) : TransGen s.Reads x y := by
  have hget : ∀ a, t.get? a = s.get? a := by
    intro a
    rw [Sheet.get?, Sheet.get?, hcells]
  have hstep : ∀ {u v w : Address}, t.Reads u v → t.Reads v w → s.Reads u v := by
    rintro u v w ⟨c, hc, hv⟩ ⟨c', hc', _⟩
    obtain ⟨e, he, hname, hin⟩ := Sheet.mem_dependencies.mp hv
    have hin' := hold v c' ((hget v).symm.trans hc') hin
    exact ⟨c, (hget u).symm.trans hc, Sheet.mem_dependencies.mpr ⟨e, he, hname, hin'⟩⟩
  induction h generalizing z with
  | single huv => exact .single (hstep huv hy)
  | tail _ huv ih => exact (ih huv).tail (hstep huv hy)

theorem Linked.grow {d : Document} (h : d.Linked) {t : Sheet} (hcells : t.cells = d.sheet.cells)
    (hold : ∀ a c, d.sheet.get? a = some c → t.contains a = true → d.sheet.contains a = true)
    (hkept : KeptOut t) : Linked (d.withSheet t) := by
  refine Linked.load d.policy hkept ?_
  intro a ha
  obtain ⟨b, hab, _⟩ := TransGen.head'_iff.mp ha
  have hloop := leads_of_grown hcells hold ha hab
  exact h.sound.acyclic a (TransGen.mono h.links a a hloop)

theorem Linked.extendRows {d : Document} (h : d.Linked) (count : Nat) :
    Linked (d.extendRows count) := by
  refine h.grow (t := d.sheet.extendRows count) rfl ?_ ?_
  · intro a c hc hin
    have hkept := h.keptOut a c hc
    rw [Sheet.contains_iff] at hin ⊢
    simp only [Sheet.extendRows] at hin
    omega
  · intro a c hc
    have hkept := h.keptOut a c hc
    simp only [Sheet.extendRows]
    omega

theorem Linked.extendCols {d : Document} (h : d.Linked) (count : Nat) :
    Linked (d.extendCols count) := by
  refine h.grow (t := d.sheet.extendCols count) rfl ?_ ?_
  · intro a c hc hin
    have hkept := h.keptOut a c hc
    rw [Sheet.contains_iff] at hin ⊢
    simp only [Sheet.extendCols] at hin
    omega
  · intro a c hc
    have hkept := h.keptOut a c hc
    simp only [Sheet.extendCols]
    omega

/-- A change inside the sheet keeps every link, if it does so where it is made. -/
theorem Linked.change {d e : Document} {a : Address} (h : d.Linked) (hchange : ChangedAt d a e)
    (hin : d.sheet.contains a = true) (hsound : e.graph.Sound)
    (hself : ∀ x, e.sheet.Reads a x → e.graph.Reads a x) : e.Linked := by
  refine ⟨hsound, ?_, ?_⟩
  · intro b c hc
    rw [hchange.rows, hchange.cols]
    by_cases hb : b = a
    · subst hb
      have hbounds := Sheet.contains_iff.mp hin
      exact ⟨Or.inl hbounds.1, Or.inl hbounds.2⟩
    · exact h.keptOut b c ((hchange.cells b hb).symm.trans hc)
  · intro b x hx
    by_cases hb : b = a
    · subst hb
      exact hself x hx
    · rw [hchange.links b x hb]
      exact h.links b x ((hchange.sheet_reads hb).mp hx)

theorem Linked.store {d : Document} (h : d.Linked) {a : Address}
    (hin : d.sheet.contains a = true) (c : Cell) : Linked (d.store a c).1 :=
  h.change (changedAt_store d a c) hin (h.sound.store a c) fun _ => links_store

theorem Linked.erase {d : Document} (h : d.Linked) {a : Address}
    (hin : d.sheet.contains a = true) : Linked (d.erase a) :=
  h.change (changedAt_erase d a) hin (h.sound.erase a)
    fun _ hx => absurd hx Sheet.not_reads_remove_self

/-- No link is missing after a history without a sort, if none could be missing at its start. -/
theorem linked_run {s : Sheet} (policy : Policy)
    (hinside : ∀ a c, s.get? a = some c → s.contains a = true)
    (hfree : ∀ a, ¬ TransGen s.Reads a a) {ops : List Operation}
    (hsort : ∀ o, Operation.sort o ∉ ops) : Linked ((load s policy).run ops) := by
  refine run_invariant ?_ ?_ ?_ ?_ ?_ (Linked.load policy (keptOut_of_inside hinside) hfree)
  · exact fun d count h => h.extendRows count
  · exact fun d count h => h.extendCols count
  · exact fun d o t hmem _ _ => absurd hmem (hsort o)
  · exact fun d a c hin h => h.store hin c
  · exact fun d a hin h => h.erase hin

/-- A cell that does not lead to the changed one evaluates as before. -/
theorem evaluateCell_of_not_leads {d e : Document} {a x : Address} (hchange : ChangedAt d a e)
    (hx : ¬ ReflTransGen e.sheet.Reads x a) (traced : Bool) :
    e.evaluateCell x traced = d.evaluateCell x traced := by
  have hagree : e.sheet.AgreeOn d.sheet fun y => ¬ ReflTransGen e.sheet.Reads y a := by
    refine ⟨hchange.rows, hchange.cols, ?_, ?_⟩
    · intro y hy
      refine hchange.cells y ?_
      rintro rfl
      exact hy .refl
    · intro y z hy hyz hz
      exact hy (.head hyz hz)
  rw [evaluateCell, evaluateCell, hchange.policy]
  exact Sheet.evaluateCell_congr hagree d.policy hx traced

theorem Linked.mem_results {d e : Document} {a x : Address} (h : e.Linked)
    (hchange : ChangedAt d a e) {results : List (Address × Evaluation)}
    (hresults : e.Recalculates a results)
    (hx : (e.evaluateCell x false).outcome ≠ (d.evaluateCell x false).outcome) :
    x ∈ results.map (·.1) := by
  by_contra hmem
  rw [hresults.mem_iff, not_or, Graph.mem_closure_iff h.sound.mirrored] at hmem
  refine hx (congrArg _ (evaluateCell_of_not_leads hchange ?_ false))
  intro hlead
  rcases reflTransGen_iff_eq_or_transGen.mp hlead with heq | hroute
  · exact hmem.1 heq.symm
  · exact hmem.2 (TransGen.mono h.links x a hroute)

/-- Every cell whose outcome an edit changes is among those that are evaluated anew. -/
theorem changed_mem_results {s : Sheet} (policy : Policy)
    (hinside : ∀ a c, s.get? a = some c → s.contains a = true)
    (hfree : ∀ a, ¬ TransGen s.Reads a a) {ops : List Operation}
    (hsort : ∀ o, Operation.sort o ∉ ops) {e : CellEdit} {d : Document} {r : Recalculation}
    (h : ((load s policy).run ops).edit e = .ok (d, r)) {x : Address}
    (hx : (d.evaluateCell x false).outcome ≠
      (((load s policy).run ops).evaluateCell x false).outcome) :
    x ∈ r.results.map (·.1) := by
  have hlinked := linked_run policy hinside hfree hsort
  obtain ⟨a, _, hin, ⟨c, rfl, rfl⟩ | ⟨rfl, rfl⟩⟩ := edit_cases h
  · have hstored := hlinked.store hin c
    exact hstored.mem_results (changedAt_store _ a c)
      (recalculates_recalculate hstored.sound a _) hx
  · have herased := hlinked.erase hin
    exact herased.mem_results (changedAt_erase _ a)
      (recalculates_recalculate herased.sound a _) hx

theorem pairSheet_get? {a : Address} {c : Cell} (h : pairSheet.get? a = some c) :
    a = ⟨0, 1⟩ ∧ c = .formula "=A1" (some (.ref ⟨⟨0, 0⟩, ⟨false, false⟩⟩)) ∨
      a = ⟨0, 0⟩ ∧ c = .literal (.bool false) := by
  rw [pairSheet, Sheet.get?_set, Sheet.get?_set, Sheet.get?_empty] at h
  grind

theorem pairSheet_reads {a b : Address} (h : pairSheet.Reads a b) : a = ⟨0, 1⟩ ∧ b = ⟨0, 0⟩ := by
  obtain ⟨c, hc, hb⟩ := h
  rcases pairSheet_get? hc with ⟨rfl, rfl⟩ | ⟨rfl, rfl⟩
  · exact ⟨rfl, Sheet.eq_of_mem_dependencies_ref hb⟩
  · cases hb

theorem not_loop_of_one_link {r : Address → Address → Prop} {x y : Address}
    (h : ∀ b c, r b c → b = x ∧ c = y) (hne : x ≠ y) (a : Address) : ¬ TransGen r a a := by
  intro hloop
  obtain ⟨b, hab, _⟩ := TransGen.head'_iff.mp hloop
  obtain ⟨c, _, hca⟩ := TransGen.tail'_iff.mp hloop
  exact hne ((h a b hab).1.symm.trans (h c a hca).2)

theorem pairSheet_loopFree (a : Address) : ¬ TransGen pairSheet.Reads a a :=
  not_loop_of_one_link (fun _ _ => pairSheet_reads) (by decide) a

/-- The formula shows the old value and then the new one. -/
theorem changed_mem_results_pair : ∃ d r,
    ((load pairSheet Policy.standard).run [.extendRows 1]).edit
        (.update ⟨0, 0⟩ (.literal (.bool true))) = .ok (d, r) ∧
      (d.evaluateCell ⟨0, 1⟩ false).outcome = .ok (.bool true) ∧ ⟨0, 1⟩ ∈ r.results.map (·.1) := by
  have hinside : ∀ a c, pairSheet.get? a = some c → pairSheet.contains a = true := by
    intro a c hc
    rcases pairSheet_get? hc with ⟨rfl, rfl⟩ | ⟨rfl, rfl⟩
    · rfl
    · rfl
  have hformula : pairSheet.get? ⟨0, 1⟩ =
      some (.formula "=A1" (some (.ref ⟨⟨0, 0⟩, ⟨false, false⟩⟩))) := Sheet.get?_set
  have hin : ((load pairSheet Policy.standard).run [.extendRows 1]).sheet.contains ⟨0, 0⟩ =
      true := rfl
  have hbefore : (((load pairSheet Policy.standard).run [.extendRows 1]).evaluateCell ⟨0, 1⟩
      false).outcome = .ok (.bool false) :=
    Sheet.outcome_of_ref hformula rfl rfl (by decide)
      ((Sheet.get?_set_of_ne (by decide)).trans Sheet.get?_set)
  have hafter : ((((load pairSheet Policy.standard).run [.extendRows 1]).store ⟨0, 0⟩
      (.literal (.bool true))).1.evaluateCell ⟨0, 1⟩ false).outcome = .ok (.bool true) :=
    Sheet.outcome_of_ref ((Sheet.get?_set_of_ne (by decide)).trans hformula) rfl rfl (by decide)
      Sheet.get?_set
  refine ⟨_, _, edit_update hin, hafter, ?_⟩
  refine changed_mem_results Policy.standard hinside pairSheet_loopFree (by simp)
    (edit_update hin) ?_
  rw [hbefore, hafter]
  simp

end Recalc.Document
