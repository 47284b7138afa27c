import Mathlib.Data.List.Dedup
import Recalc.Proofs.Address.Order
import Recalc.Proofs.Graph.Order

namespace Recalc

open Relation

/-- A way leads from the cell to a loop, or the cell is on one. -/
def LeadsToLoop (r : Address → Address → Prop) (a : Address) : Prop :=
  ∃ b, ReflTransGen r a b ∧ TransGen r b b

section

variable {r : Address → Address → Prop} {a : Address}

theorem LeadsToLoop.exists_step (h : LeadsToLoop r a) : ∃ b, r a b ∧ LeadsToLoop r b := by
  obtain ⟨x, hax, hloop⟩ := h
  rcases reflTransGen_iff_eq_or_transGen.mp hax with rfl | hax
  · obtain ⟨b, hxb, hbx⟩ := TransGen.head'_iff.mp hloop
    exact ⟨b, hxb, x, hbx, hloop⟩
  · obtain ⟨b, hab, hbx⟩ := TransGen.head'_iff.mp hax
    exact ⟨b, hab, x, hbx, hloop⟩

/-- Where everything leads on within finitely many cells, it runs into a loop. -/
theorem leadsToLoop_of_all_lead_on {cells : List Address}
    (hnext : ∀ x ∈ cells, ∃ y ∈ cells, r x y) (ha : a ∈ cells) : LeadsToLoop r a := by
  classical
  by_contra hnot
  let reached := cells.filter fun x => ReflTransGen r a x
  have hreached : ∀ x, x ∈ reached ↔ x ∈ cells ∧ ReflTransGen r a x := by
    intro x
    simp [reached]
  have hfree : ∀ x ∈ reached, ¬ TransGen r x x :=
    fun x hx hloop => hnot ⟨x, ((hreached x).mp hx).2, hloop⟩
  have hne : reached ≠ [] := List.ne_nil_of_mem ((hreached a).mpr ⟨ha, .refl⟩)
  obtain ⟨x, hx, hnone⟩ := Graph.exists_leads_nowhere hfree hne
  obtain ⟨hxcells, hax⟩ := (hreached x).mp hx
  obtain ⟨y, hy, hxy⟩ := hnext x hxcells
  exact hnone y ((hreached y).mpr ⟨hy, hax.tail hxy⟩) (.single hxy)

end

namespace Graph

/-- `a` reads `b`, and both are among the cells. -/
def ReadsWithin (g : Graph) (cells : List Address) (a b : Address) : Prop :=
  a ∈ cells ∧ b ∈ cells ∧ g.Reads a b

variable {g : Graph} {members : AddressSet} {cells done order : List Address} {a : Address}

/-- A cell reads only cells that come before it, so that none before it leads to a loop. -/
theorem ReadyOrder.not_leadsToLoop (h : ReadyOrder g (.ofList cells) done order)
    (hdone : ∀ x ∈ done, ¬ LeadsToLoop (g.ReadsWithin cells) x) :
    ∀ x ∈ order, ¬ LeadsToLoop (g.ReadsWithin cells) x := by
  induction order generalizing done with
  | nil => simp
  | cons a rest ih =>
    obtain ⟨_, hready, hrest⟩ := h
    have ha : ¬ LeadsToLoop (g.ReadsWithin cells) a := by
      intro hloop
      obtain ⟨b, ⟨_, hb, hab⟩, hloop⟩ := hloop.exists_step
      exact hdone b (hready b (mem_members.mpr hb) hab) hloop
    have hsnoc : ∀ x ∈ done ++ [a], ¬ LeadsToLoop (g.ReadsWithin cells) x := by
      intro x hx
      rcases List.mem_append.mp hx with hx | hx
      · exact hdone x hx
      · exact List.mem_singleton.mp hx ▸ ha
    exact List.forall_mem_cons.mpr ⟨ha, ih hrest hsnoc⟩

theorem mem_stalled_iff (hg : g.Mirrored) :
    a ∈ (g.evaluationOrder cells).stalled ↔ a ∈ cells ∧ LeadsToLoop (g.ReadsWithin cells) a := by
  have hcells : ∀ x ∈ (g.evaluationOrder cells).stalled, x ∈ cells :=
    fun x hx => (mem_evaluationOrder hg).mpr (Or.inr hx)
  have hnext : ∀ x ∈ (g.evaluationOrder cells).stalled,
      ∃ y ∈ (g.evaluationOrder cells).stalled, g.ReadsWithin cells x y := by
    intro x hx
    obtain ⟨y, hy, hxy⟩ := stalled_evaluationOrder hg hx
    exact ⟨y, hy, hcells x hx, hcells y hy, hxy⟩
  constructor
  · exact fun ha => ⟨hcells a ha, leadsToLoop_of_all_lead_on hnext ha⟩
  · rintro ⟨ha, hloop⟩
    have hplaced := (evaluationOrder_ready hg cells).not_leadsToLoop (by simp) a
    exact ((mem_evaluationOrder hg).mp ha).resolve_left fun ha => hplaced ha hloop

theorem pairwise_stalled (g : Graph) (waiting : Waiting) (queue : List Address) :
    (g.evaluationLoop waiting queue).stalled.Pairwise fun a b => compare a b = .lt := by
  fun_induction evaluationLoop g waiting queue with
  | case1 waiting => exact Std.ExtTreeMap.ordered_keys
  | case2 waiting a queue freed later ih => exact ih

theorem stalled_apart {queue : List Address} {waiting : Waiting} (hg : g.Mirrored)
    (h : LoopState g members done queue waiting)
    (ha : a ∈ (g.evaluationLoop waiting queue).stalled) :
    a ∉ done ∧ a ∉ (g.evaluationLoop waiting queue).order := by
  fun_induction evaluationLoop g waiting queue generalizing done
  case case1 waiting =>
    have hkey := Std.ExtTreeMap.mem_iff_isSome_getElem?.mp (Std.ExtTreeMap.mem_keys.mp ha)
    obtain ⟨n, hn⟩ := Option.isSome_iff_exists.mp hkey
    exact ⟨(h.apart a n hn).1, List.not_mem_nil⟩
  case case2 waiting b queue freed later ih =>
    obtain ⟨hdone, horder⟩ := ih (h.step hg) ha
    rw [List.mem_append, List.mem_singleton, not_or] at hdone
    exact ⟨hdone.1, List.not_mem_cons_of_ne_of_not_mem hdone.2 horder⟩

/-- How cells are put in order: all of them, each behind those that it reads, except for those that
lead to a loop. -/
structure Sorts (g : Graph) (cells : List Address) (o : EvaluationOrder) : Prop where
  once : (o.order ++ o.stalled).Perm cells.dedup
  behind : ∀ i (hi : i < o.order.length), ∀ b ∈ cells, g.Reads o.order[i] b → b ∈ o.order.take i
  rowByRow : o.stalled.Pairwise fun a b => a.row < b.row ∨ a.row = b.row ∧ a.col < b.col
  stalled_iff : ∀ a, a ∈ o.stalled ↔ a ∈ cells ∧ LeadsToLoop (g.ReadsWithin cells) a

theorem sorts_evaluationOrder (hg : g.Mirrored) (cells : List Address) :
    g.Sorts cells (g.evaluationOrder cells) := by
  have hready := evaluationOrder_ready hg cells
  have hordered : (g.evaluationOrder cells).stalled.Pairwise fun a b => compare a b = .lt :=
    pairwise_stalled g _ _
  constructor
  case once =>
    have hstalled : (g.evaluationOrder cells).stalled.Nodup := by
      refine hordered.imp fun hlt heq => ?_
      rw [heq, Std.compare_self] at hlt
      cases hlt
    have hnodup : ((g.evaluationOrder cells).order ++ (g.evaluationOrder cells).stalled).Nodup := by
      refine List.nodup_append.mpr ⟨hready.nodup, hstalled, ?_⟩
      rintro x hx y hy rfl
      exact (stalled_apart hg (loopState_start g _) hy).2 hx
    rw [List.perm_ext_iff_of_nodup hnodup (List.nodup_dedup cells)]
    intro x
    rw [List.mem_append, List.mem_dedup]
    exact (mem_evaluationOrder hg).symm
  case behind =>
    intro i hi b hb hr
    have hbefore := hready.mem_of_reads hi (mem_members.mpr hb) hr
    rwa [List.nil_append] at hbefore
  case rowByRow => exact hordered.imp Address.compare_eq_lt_iff.mp
  case stalled_iff => exact fun a => mem_stalled_iff hg

end Graph

end Recalc
