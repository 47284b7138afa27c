import Recalc.Proofs.Document.Readable

namespace Recalc

open Relation

/-- New links of a cell that had none close a loop through it exactly if one of them leads back. -/
theorem Graph.loop_of_new_links_iff {g : Graph} {a : Address} {reads : List Address} :
    TransGen (reads.foldl (fun g b => g.add a b) (g.removeOutgoing a)).Reads a a ↔
      ∃ b ∈ reads, ReflTransGen (g.removeOutgoing a).Reads b a := by
  constructor
  · intro hloop
    obtain ⟨b, hab, hba⟩ := TransGen.head'_iff.mp hloop
    rcases reads_foldl_add.mp hab with hold | ⟨_, hb⟩
    · exact absurd rfl (reads_removeOutgoing.mp hold).1
    · -- A new link on the way back starts at `a`, where the way could have ended.
      refine ⟨b, hb, leads_of_new_links (fun x y hxy => ?_) hba⟩
      exact (reads_foldl_add.mp hxy).imp_right And.left
  · rintro ⟨b, hb, hlead⟩
    refine TransGen.head' (reads_foldl_add.mpr (Or.inr ⟨rfl, hb⟩)) ?_
    exact ReflTransGen.mono (fun x y hxy => reads_foldl_add.mpr (Or.inl hxy)) b a hlead

namespace Document

variable {d : Document} {t : Sheet} {a : Address}

/-- An update of `a` with `c` is carried out; where `loop` holds the cell is rejected and a failure
is stored in its place, and else it is stored. -/
def RejectsIff (d : Document) (a : Address) (c : Cell) (loop : Prop) : Prop :=
  ∃ e r, d.update a c = .ok (e, r) ∧
    (loop → r.rejected = true ∧ ∃ message, e.sheet.get? a = some (.error ⟨.circular, message⟩)) ∧
    (¬ loop → r.rejected = false ∧ e.sheet.get? a = some c)

theorem rejectsIff_of_lead (hin : d.sheet.contains a = true) (c : Cell) :
    d.RejectsIff a c
      (∃ b ∈ d.sheet.dependencies c, ReflTransGen (d.graph.removeOutgoing a).Reads b a) := by
  refine ⟨_, _, edit_update hin, ?_⟩
  have hstored := stored_store d a c
  generalize d.store a c = result at hstored
  simp only [recalculate]
  cases hstored with
  | unread =>
    refine ⟨?_, fun _ => ⟨rfl, Sheet.get?_set.trans (if_pos rfl)⟩⟩
    rintro ⟨b, hb, _⟩
    simp [Sheet.dependencies, Cell.expr?] at hb
  | rejected hfirst =>
    refine ⟨fun _ => ⟨rfl, _, Sheet.get?_set.trans (if_pos rfl)⟩, fun hfree => ?_⟩
    have hcloses := List.find?_some hfirst
    exact absurd ⟨_, List.mem_of_find?_eq_some hfirst, Graph.closesLoop_iff.mp hcloses⟩ hfree
  | accepted _ hfree =>
    refine ⟨?_, fun _ => ⟨rfl, Sheet.get?_set.trans (if_pos rfl)⟩⟩
    rintro ⟨b, hb, hlead⟩
    exact absurd hlead (hfree b hb)

theorem RejectsIff.congr {c : Cell} {p q : Prop} (h : d.RejectsIff a c p) (hpq : p ↔ q) :
    d.RejectsIff a c q :=
  propext hpq ▸ h

/-- The links that the graph would hold with `c` stored at `a` are those of the readable sheet. -/
theorem Tracks.reads_set_iff (h : d.Tracks t) (c : Cell) {x y : Address} :
    (t.set a c).Reads x y ↔ ((d.sheet.dependencies c).foldl (fun g b => g.add a b)
      (d.graph.removeOutgoing a)).Reads x y := by
  have hdeps : t.dependencies c = d.sheet.dependencies c := by
    unfold Sheet.dependencies
    rw [h.rows, h.cols]
  rw [Graph.reads_foldl_add, Graph.reads_removeOutgoing]
  by_cases hx : x = a
  · subst hx
    rw [Sheet.reads_set_self, hdeps]
    simp
  · have hold : (t.set a c).Reads x y ↔ t.Reads x y :=
      Sheet.reads_congr rfl rfl (Sheet.get?_set_of_ne hx)
    rw [hold, ← h.links]
    simp [hx]

theorem Tracks.rejectsIff (h : d.Tracks t) (hin : d.sheet.contains a = true) (c : Cell) :
    d.RejectsIff a c (TransGen (t.set a c).Reads a a) := by
  have hreads : (t.set a c).Reads = ((d.sheet.dependencies c).foldl (fun g b => g.add a b)
      (d.graph.removeOutgoing a)).Reads := by
    funext x y
    exact propext (h.reads_set_iff c)
  refine (rejectsIff_of_lead hin c).congr ?_
  rw [hreads, Graph.loop_of_new_links_iff]

/-- What the formulas of the sheet read, the readable ones read, with any cell at `a`. -/
theorem Tracks.reads_readable (h : d.Tracks t) {c : Cell} {x y : Address}
    (hxy : (d.sheet.set a c).Reads x y) : (t.set a c).Reads x y := by
  by_cases hx : x = a
  · subst hx
    refine (Sheet.reads_congr (s := t.set x c) (t := d.sheet.set x c) h.rows h.cols ?_).mpr hxy
    rw [Sheet.get?_set, Sheet.get?_set, if_pos rfl, if_pos rfl]
  · have hread : ¬ (d.sheet.set a c).Unread x := fun hx => Sheet.not_reads_of_unread hx hxy
    rw [Sheet.Unread, Sheet.get?_set_of_ne hx] at hread
    refine (Sheet.reads_congr (s := t.set a c) (t := d.sheet.set a c) h.rows h.cols ?_).mpr hxy
    rw [Sheet.get?_set_of_ne hx, Sheet.get?_set_of_ne hx, h.cells x hread]

theorem Tracks.reads_readable_iff (h : d.Tracks t) (hread : ∀ b, b ≠ a → ¬ d.sheet.Unread b)
    {c : Cell} {x y : Address} : (t.set a c).Reads x y ↔ (d.sheet.set a c).Reads x y := by
  refine Sheet.reads_congr h.rows h.cols ?_
  rw [Sheet.get?_set, Sheet.get?_set]
  split
  next => rfl
  next hne => exact h.cells x (hread x (Ne.symm hne))

theorem loopFree_empty {id name : String} {rows cols : Nat} (a : Address) :
    ¬ TransGen (Sheet.empty id name rows cols).Reads a a := by
  intro hloop
  obtain ⟨b, ⟨c, hc, _⟩, _⟩ := TransGen.head'_iff.mp hloop
  simp [Sheet.get?_empty] at hc

/-- How a document decides on a cell, where `t` is what it takes for the formulas of its sheet. -/
structure DecidesBy (d : Document) (t : Sheet) (a : Address) (c : Cell) : Prop where
  decides : d.RejectsIff a c (TransGen (t.set a c).Reads a a)
  cells : ∀ b, ¬ d.sheet.Unread b → t.get? b = d.sheet.get? b
  /-- No loop of the sheet is missed. -/
  complete : TransGen (d.sheet.set a c).Reads a a → TransGen (t.set a c).Reads a a
  /-- None is made up where all other formulas can be read. -/
  exact : (∀ b, b ≠ a → ¬ d.sheet.Unread b) →
    d.RejectsIff a c (TransGen (d.sheet.set a c).Reads a a)

theorem Tracks.decidesBy (h : d.Tracks t) (hin : d.sheet.contains a = true) (c : Cell) :
    d.DecidesBy t a c := by
  have hrejects := h.rejectsIff hin c
  refine ⟨hrejects, h.cells, TransGen.mono (fun x y => h.reads_readable) a a, ?_⟩
  intro hread
  refine hrejects.congr ⟨?_, ?_⟩
  · exact TransGen.mono (fun x y => (h.reads_readable_iff hread).mp) a a
  · exact TransGen.mono (fun x y => (h.reads_readable_iff hread).mpr) a a

theorem tracks_run_empty {id name : String} {rows cols : Nat} {ops : List Operation}
    (hsort : ∀ o, Operation.sort o ∉ ops) : ((empty id name rows cols).run ops).Tracks
      (readable (Sheet.empty id name rows cols) Policy.standard ops) := by
  refine tracks_run Policy.standard ?_ loopFree_empty hsort
  intro a c hc
  simp [Sheet.get?_empty] at hc

theorem after_update {c : Cell} (hin : d.sheet.contains a = true) :
    d.after (.edit (.update a c)) = (d.store a c).1 := by
  simp only [after, perform, edit_update hin, Except.map]

theorem store_of_not_leads {c : Cell}
    (hfree : ∀ b ∈ d.sheet.dependencies c, ¬ ReflTransGen (d.graph.removeOutgoing a).Reads b a) :
    (d.store a c).1.sheet = d.sheet.set a c := by
  have hstored := stored_store d a c
  generalize d.store a c = result at hstored
  cases hstored with
  | unread => rfl
  | rejected hfirst =>
    have hcloses := Graph.closesLoop_iff.mp (List.find?_some hfirst)
    exact absurd hcloses (hfree _ (List.mem_of_find?_eq_some hfirst))
  | accepted => rfl

def leftward : Cell := .formula "=A1" (some (.ref ⟨⟨0, 0⟩, ⟨false, false⟩⟩))

def rightward : Cell := .formula "=B1" (some (.ref ⟨⟨0, 1⟩, ⟨false, false⟩⟩))

/-- A formula is stored, and over it one that cannot be read. -/
def overwriting : List Operation :=
  [.edit (.update ⟨0, 1⟩ leftward), .edit (.update ⟨0, 1⟩ (.formula "=A1+" none))]

def overwritten : Document := (empty "s" "Sheet" 1 2).run overwriting

theorem store_leftward_sheet : ((empty "s" "Sheet" 1 2).store ⟨0, 1⟩ leftward).1.sheet =
    (Sheet.empty "s" "Sheet" 1 2).set ⟨0, 1⟩ leftward := by
  refine store_of_not_leads fun b hb hlead => ?_
  obtain rfl | ⟨x, hx, _⟩ := ReflTransGen.cases_head hlead
  · revert hb
    decide
  · exact Graph.not_reads_empty (Graph.reads_removeOutgoing.mp hx).2

theorem overwritten_eq : overwritten =
    (((empty "s" "Sheet" 1 2).store ⟨0, 1⟩ leftward).1.store ⟨0, 1⟩ (.formula "=A1+" none)).1 := by
  have hfirst : (empty "s" "Sheet" 1 2).sheet.contains ⟨0, 1⟩ = true := rfl
  have hsecond :
      ((empty "s" "Sheet" 1 2).store ⟨0, 1⟩ leftward).1.sheet.contains ⟨0, 1⟩ = true := by
    rw [store_leftward_sheet]
    rfl
  rw [overwritten, run, overwriting, List.foldl_cons, after_update hfirst, List.foldl_cons]
  exact after_update hsecond

theorem overwritten_sheet : overwritten.sheet =
    ((Sheet.empty "s" "Sheet" 1 2).set ⟨0, 1⟩ leftward).set ⟨0, 1⟩ (.formula "=A1+" none) := by
  rw [overwritten_eq, ← store_leftward_sheet]
  rfl

theorem overwritten_reads : overwritten.graph.Reads ⟨0, 1⟩ ⟨0, 0⟩ := by
  have hreads : ((empty "s" "Sheet" 1 2).store ⟨0, 1⟩ leftward).1.sheet.Reads ⟨0, 1⟩ ⟨0, 0⟩ := by
    rw [store_leftward_sheet, Sheet.reads_set_self]
    decide
  have hlinked := links_store hreads
  rw [overwritten_eq]
  exact hlinked

theorem tracks_overwritten : overwritten.Tracks
    (readable (Sheet.empty "s" "Sheet" 1 2) Policy.standard overwriting) :=
  tracks_run_empty (by simp [overwriting])

theorem overwritten_loop : TransGen ((readable (Sheet.empty "s" "Sheet" 1 2) Policy.standard
    overwriting).set ⟨0, 0⟩ rightward).Reads ⟨0, 0⟩ ⟨0, 0⟩ := by
  have hright : ⟨0, 1⟩ ∈ overwritten.sheet.dependencies rightward := by
    rw [overwritten_sheet]
    decide
  -- There by the new formula, and back by the link of the one that is gone.
  refine .head (b := ⟨0, 1⟩) ?_ (.single ?_)
  · refine (tracks_overwritten.reads_set_iff rightward).mpr ?_
    exact Graph.reads_foldl_add.mpr (Or.inr ⟨rfl, hright⟩)
  · refine (tracks_overwritten.reads_set_iff rightward).mpr (Graph.reads_foldl_add.mpr (Or.inl ?_))
    exact Graph.reads_removeOutgoing.mpr ⟨by decide, overwritten_reads⟩

theorem overwritten_contains : overwritten.sheet.contains ⟨0, 0⟩ = true := by
  rw [overwritten_sheet]
  rfl

/-- A formula is rejected exactly if it closes a loop, where a cell with a formula that cannot be
read counts with what that was written over. -/
theorem rejects_iff_closes_readable_loop (id name : String) (rows cols : Nat)
    {ops : List Operation} (hsort : ∀ o, Operation.sort o ∉ ops) {a : Address}
    (hin : ((empty id name rows cols).run ops).sheet.contains a = true) (source : String)
    (f : Expr) :
    ((empty id name rows cols).run ops).DecidesBy
      (readable (Sheet.empty id name rows cols) Policy.standard ops) a
      (.formula source (some f)) :=
  (tracks_run_empty hsort).decidesBy hin _

theorem rejects_iff_closes_readable_loop_overwritten : ∃ e r,
    overwritten.update ⟨0, 0⟩ rightward = .ok (e, r) ∧ r.rejected = true ∧
      ∃ message, e.sheet.get? ⟨0, 0⟩ = some (.error ⟨.circular, message⟩) := by
  have hsort : ∀ o, Operation.sort o ∉ overwriting := by simp [overwriting]
  obtain ⟨e, r, hupdate, hrejected, _⟩ := (rejects_iff_closes_readable_loop "s" "Sheet" 1 2 hsort
    overwritten_contains "=B1" (.ref ⟨⟨0, 1⟩, ⟨false, false⟩⟩)).decides
  exact ⟨e, r, hupdate, hrejected overwritten_loop⟩

/-- The formula is rejected, though no loop of formulas that can be read leads through its cell. -/
theorem rejects_without_loop :
    (∃ e r, overwritten.update ⟨0, 0⟩ rightward = .ok (e, r) ∧ r.rejected = true) ∧
      ¬ TransGen (overwritten.sheet.set ⟨0, 0⟩ rightward).Reads ⟨0, 0⟩ ⟨0, 0⟩ := by
  constructor
  · obtain ⟨e, r, hupdate, hrejected, _⟩ :=
      tracks_overwritten.rejectsIff overwritten_contains rightward
    exact ⟨e, r, hupdate, (hrejected overwritten_loop).1⟩
  · intro hloop
    -- The last step of the loop would be a formula that names its cell.
    obtain ⟨x, _, c, hc, hback⟩ := TransGen.tail'_iff.mp hloop
    have hcell : c = rightward ∨ c = .formula "=A1+" none := by
      rw [overwritten_sheet, Sheet.get?_set, Sheet.get?_set, Sheet.get?_set, Sheet.get?_empty] at hc
      grind
    rcases hcell with rfl | rfl
    · cases Sheet.eq_of_mem_dependencies_ref hback
    · cases hback

end Document

end Recalc
