import Recalc.Proofs.Document.Linked

namespace Recalc

open Relation

namespace Graph

/-- `b` is `a` or leads to it over links out of other cells than `a`. -/
def LeadsBack (g : Graph) (a b : Address) : Prop := ReflTransGen (fun x y => x ≠ a ∧ g.Reads x y) b a

/-- The graphs have the same links but for those out of `a`, seen from both ends. -/
structure SameBut (a : Address) (g h : Graph) : Prop where
  precedents : ∀ b x, b ≠ a → (h.precedents.Linked b x ↔ g.precedents.Linked b x)
  dependents : ∀ b x, b ≠ a → (h.dependents.Linked x b ↔ g.dependents.Linked x b)

theorem SameBut.of_reads {a : Address} {g h : Graph} (hg : g.Mirrored) (hh : h.Mirrored)
    (hreads : ∀ b x, b ≠ a → (h.Reads b x ↔ g.Reads b x)) : SameBut a g h := by
  refine ⟨hreads, ?_⟩
  intro b x hb
  rw [hh b x, hg b x]
  exact hreads b x hb

/-- Links out of `a` play no part in what leads back to it. -/
theorem leadsBack_congr {a b : Address} {g h : Graph}
    (hreads : ∀ x y, x ≠ a → (h.Reads x y ↔ g.Reads x y)) : h.LeadsBack a b ↔ g.LeadsBack a b := by
  have heq : (fun x y => x ≠ a ∧ h.Reads x y) = fun x y => x ≠ a ∧ g.Reads x y := by
    funext x y
    exact propext (and_congr_right (hreads x y))
  rw [LeadsBack, LeadsBack, heq]

theorem closesLoop_removeOutgoing_iff {g : Graph} {a b : Address} :
    (g.removeOutgoing a).closesLoop a b = true ↔ g.LeadsBack a b := by
  have hreads : (g.removeOutgoing a).Reads = fun x y => x ≠ a ∧ g.Reads x y := by
    funext x y
    exact propext reads_removeOutgoing
  rw [closesLoop_iff, hreads]
  rfl

end Graph

namespace Document

/-- The cell that an update of `a` to `c` leaves there, and what it links `a` to. A formula is
rejected for the first of the cells that it reads, in the order in which they stand in it, that
leads back to `a`. -/
def Updated (d : Document) (a : Address) (c : Cell) (e : Document) (rejected : Bool) : Prop :=
  match c with
  | .formula _ none => rejected = false ∧ e.sheet = d.sheet.set a c ∧ e.graph = d.graph
  | .formula _ (some f) =>
    (rejected = true ↔ ∃ b ∈ f.dependencies d.sheet.rows d.sheet.cols, d.graph.LeadsBack a b) ∧
      (rejected = true → (∃ before b after,
        f.dependencies d.sheet.rows d.sheet.cols = before ++ b :: after ∧
        (∀ x ∈ before, ¬ d.graph.LeadsBack a x) ∧ d.graph.LeadsBack a b ∧
        e.sheet = d.sheet.set a (.error ⟨.circular,
          "Circular reference detected: " ++ a.text ++ " -> " ++ b.text⟩)) ∧
        ∀ x, ¬ e.graph.Reads a x) ∧
      (rejected = false → e.sheet = d.sheet.set a c ∧
        ∀ x, e.graph.Reads a x ↔ x ∈ f.dependencies d.sheet.rows d.sheet.cols)
  | _ => rejected = false ∧ e.sheet = d.sheet.set a c ∧ ∀ x, ¬ e.graph.Reads a x

variable {d : Document} {a : Address}

theorem not_reads_removeOutgoing_self {x : Address} : ¬ (d.graph.removeOutgoing a).Reads a x :=
  fun h => (Graph.reads_removeOutgoing.mp h).1 rfl

theorem reads_accepted_iff {reads : List Address} {x : Address} :
    (reads.foldl (fun g b => g.add a b) (d.graph.removeOutgoing a)).Reads a x ↔ x ∈ reads := by
  rw [Graph.reads_foldl_add, or_iff_right not_reads_removeOutgoing_self]
  exact and_iff_right rfl

/-- A rejected cell is a formula, and the failure names the first read that leads back. -/
theorem updated_of_rejected {c : Cell} {read : Address}
    (hfirst : (d.sheet.dependencies c).find? ((d.graph.removeOutgoing a).closesLoop a) = some read) :
    d.Updated a c
      { d with
        sheet := d.sheet.set a (.error (loopFailure a read))
        graph := d.graph.removeOutgoing a } true := by
  obtain ⟨hclosed, before, after, hreads, hbefore⟩ := List.find?_eq_some_iff_append.mp hfirst
  have hback := Graph.closesLoop_removeOutgoing_iff.mp hclosed
  have hmem : read ∈ d.sheet.dependencies c := List.mem_of_find?_eq_some hfirst
  rcases c with v | ⟨source, _ | f⟩ | f
  case literal | formula.none | error => cases hmem
  case formula.some =>
    refine ⟨iff_of_true rfl ⟨read, hmem, hback⟩, fun _ => ⟨?_, ?_⟩, nofun⟩
    · refine ⟨before, read, after, hreads, ?_, hback, rfl⟩
      intro x hx hlead
      have hopen := hbefore x hx
      rw [Graph.closesLoop_removeOutgoing_iff.mpr hlead] at hopen
      cases hopen
    · exact fun x => not_reads_removeOutgoing_self

theorem updated_of_accepted {c : Cell} (hread : ∀ source, c ≠ .formula source none)
    (hfree : ∀ b ∈ d.sheet.dependencies c, ¬ ReflTransGen (d.graph.removeOutgoing a).Reads b a) :
    d.Updated a c
      { d with
        sheet := d.sheet.set a c
        graph := (d.sheet.dependencies c).foldl (fun g b => g.add a b)
          (d.graph.removeOutgoing a) } false := by
  rcases c with v | ⟨source, _ | f⟩ | f
  case literal | error => exact ⟨rfl, rfl, fun x => not_reads_removeOutgoing_self⟩
  case formula.none => exact absurd rfl (hread source)
  case formula.some =>
    refine ⟨iff_of_false Bool.false_ne_true ?_, nofun,
      fun _ => ⟨rfl, fun x => reads_accepted_iff⟩⟩
    rintro ⟨b, hb, hlead⟩
    exact hfree b hb (Graph.closesLoop_iff.mp (Graph.closesLoop_removeOutgoing_iff.mpr hlead))

theorem updated_store (d : Document) (a : Address) (c : Cell) :
    d.Updated a c (d.store a c).1 (d.store a c).2 := by
  have hstored := stored_store d a c
  generalize d.store a c = result at hstored
  cases hstored with
  | unread => exact ⟨rfl, rfl, rfl⟩
  | rejected hfirst => exact updated_of_rejected hfirst
  | accepted hread hfree => exact updated_of_accepted hread hfree

theorem sheet_store (d : Document) (a : Address) (c : Cell) :
    ∃ stored, (d.store a c).1.sheet = d.sheet.set a stored := by
  have hstored := stored_store d a c
  generalize d.store a c = result at hstored
  cases hstored with
  | unread => exact ⟨_, rfl⟩
  | rejected => exact ⟨_, rfl⟩
  | accepted => exact ⟨_, rfl⟩

/-- After any history, an update inside the sheet is carried out. It changes the sheet at the updated
cell only and the graph only in links out of this cell, at both of their ends; what it does there
depends on the kind of the new cell and on what leads back. -/
theorem update_changes_one_cell {s : Sheet} {policy : Policy} {ops : List Operation} {d : Document}
    (hd : d = (load s policy).run ops) {a : Address} (hin : d.sheet.contains a = true) (c : Cell) :
    ∃ e rejected, d.update a c = .ok (e, e.recalculate a rejected) ∧ e.policy = d.policy ∧
      (∃ stored, e.sheet = d.sheet.set a stored) ∧ Graph.SameBut a d.graph e.graph ∧
      e.graph.isConsistent = true ∧ d.Updated a c e rejected := by
  have hsound : d.graph.Sound := hd ▸ sound_run s policy ops
  have hmirrored := (hsound.store a c).mirrored
  have hchange := changedAt_store d a c
  exact ⟨_, _, update_eq_ok.mpr ⟨hin, rfl, rfl⟩, hchange.policy, sheet_store d a c,
    .of_reads hsound.mirrored hmirrored hchange.links, Graph.isConsistent_iff.mpr hmirrored,
    updated_store d a c⟩

/-- The pair of a value and a formula that refers to it, the value having been replaced. -/
def editedPair : Document :=
  (load pairSheet Policy.standard).run [.edit (.update ⟨0, 0⟩ (.literal (.bool true)))]

theorem editedPair_reads : editedPair.graph.Reads ⟨0, 1⟩ ⟨0, 0⟩ := by
  have hread : pairSheet.Reads ⟨0, 1⟩ ⟨0, 0⟩ := Sheet.reads_set_self.mpr (by decide)
  have hloaded := Graph.ofSheet_reads_of_loopFree pairSheet_loopFree hread
  exact Graph.reads_removeOutgoing.mpr ⟨by decide, hloaded⟩

/-- A formula that refers to the other cell and to itself is rejected for the first of the two. -/
theorem update_changes_one_cell_pair :
    editedPair.sheet.contains ⟨0, 0⟩ = true ∧ ∃ e,
      editedPair.update ⟨0, 0⟩ (.formula "=B1+A1" (some (.binary .add
        (.ref ⟨⟨0, 1⟩, ⟨false, false⟩⟩) (.ref ⟨⟨0, 0⟩, ⟨false, false⟩⟩)))) =
          .ok (e, e.recalculate ⟨0, 0⟩ true) ∧
      e.sheet.get? ⟨0, 0⟩ = some (.error ⟨.circular, "Circular reference detected: A1 -> B1"⟩) ∧
      e.graph.Reads ⟨0, 1⟩ ⟨0, 0⟩ := by
  have hin : editedPair.sheet.contains ⟨0, 0⟩ = true := rfl
  obtain ⟨e, rejected, hupdate, _, _, hsame, _, hrejected, hstored, _⟩ :=
    update_changes_one_cell (d := editedPair) rfl hin (.formula "=B1+A1" (some (.binary .add
      (.ref ⟨⟨0, 1⟩, ⟨false, false⟩⟩) (.ref ⟨⟨0, 0⟩, ⟨false, false⟩⟩))))
  have hreads : (Expr.binary .add (.ref ⟨⟨0, 1⟩, ⟨false, false⟩⟩)
      (.ref ⟨⟨0, 0⟩, ⟨false, false⟩⟩)).dependencies editedPair.sheet.rows editedPair.sheet.cols =
        [⟨0, 1⟩, ⟨0, 0⟩] := by decide
  have hback : editedPair.graph.LeadsBack ⟨0, 0⟩ ⟨0, 1⟩ :=
    .single ⟨by decide, editedPair_reads⟩
  have hrejects : rejected = true := hrejected.mpr ⟨⟨0, 1⟩, hreads ▸ List.mem_cons_self, hback⟩
  subst hrejects
  obtain ⟨⟨before, b, after, hsplit, hbefore, _, hsheet⟩, _⟩ := hstored rfl
  rw [hreads] at hsplit
  -- Nothing stands before the first read, since that one leads back already.
  obtain rfl : before = [] := by
    cases before with
    | nil => rfl
    | cons x before =>
      obtain rfl : ⟨0, 1⟩ = x := (List.cons_eq_cons.mp hsplit).1
      exact absurd hback (hbefore _ List.mem_cons_self)
  obtain rfl : ⟨0, 1⟩ = b := (List.cons_eq_cons.mp hsplit).1
  have hmessage : "Circular reference detected: " ++ Address.text ⟨0, 0⟩ ++ " -> " ++
      Address.text ⟨0, 1⟩ = "Circular reference detected: A1 -> B1" := by decide +kernel
  refine ⟨hin, e, hupdate, ?_, (hsame.precedents _ _ (by decide)).mpr editedPair_reads⟩
  rw [hsheet, Sheet.get?_set, if_pos rfl, hmessage]

end Document

end Recalc
