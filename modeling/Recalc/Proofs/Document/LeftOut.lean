import Recalc.Proofs.Document.Loops

namespace Recalc

open Relation

/-- What a loaded sheet reads but the graph leaves out. -/
def Sheet.LeftOut (s : Sheet) (a b : Address) : Prop :=
  s.Reads a b ∧ ¬ (Graph.ofSheet s).Reads a b

theorem Sheet.LeftOut.closesLoop {s : Sheet} {a b : Address} (h : s.LeftOut a b) :
    (Graph.ofSheet s).closesLoop a b = true := by
  rw [Graph.closesLoop_iff]
  exact (Graph.ofSheet_reads_or_leads h.1).resolve_left h.2

/-- What a history leaves behind: the sheet whose links were found last, and the cells that were
edited since then. -/
structure Trail where
  loaded : Sheet
  edited : List Address

namespace Document

/-- A stored formula reads what the graph does not know of. -/
def Lacks (d : Document) (a b : Address) : Prop := d.sheet.Reads a b ∧ ¬ d.graph.Reads a b

/-- The trail behind an operation that is carried out. -/
def extendTrail (d : Document) (t : Trail) : Operation → Trail
  | .edit e =>
    match e.cell with
    | .ok a => { t with edited := a :: t.edited }
    | .error _ => t
  | .extendRows count => ⟨d.sheet.extendRows count, []⟩
  | .extendCols count => ⟨d.sheet.extendCols count, []⟩
  | .importCsv text col row =>
    match Csv.cells text col row with
    | .ok cs =>
      ⟨(d.sheet.extendRows (Csv.rowsNeeded cs - d.sheet.rows)).extendCols
        (Csv.colsNeeded cs - d.sheet.cols), cs.map (·.1)⟩
    | .error _ => t
  | .sort o =>
    match d.sheet.sort d.policy o with
    | .ok s => ⟨s, []⟩
    | .error _ => t

/-- The trail behind some operations, those that are refused left aside. -/
def trailFrom (d : Document) (t : Trail) : List Operation → Trail
  | [] => t
  | op :: ops =>
    match d.perform op with
    | .ok e => e.trailFrom (d.extendTrail t op) ops
    | .error _ => d.trailFrom t ops

def trail (s : Sheet) (policy : Policy) (ops : List Operation) : Trail :=
  (load s policy).trailFrom ⟨s, []⟩ ops

/-- The links that the graph lacks are those that were left out of it, but for edited readers. -/
def Follows (d : Document) (t : Trail) : Prop :=
  ∀ a b, d.Lacks a b ↔ t.loaded.LeftOut a b ∧ a ∉ t.edited

theorem follows_load (s : Sheet) (policy : Policy) : (load s policy).Follows ⟨s, []⟩ := by
  intro a b
  have hunedited : a ∉ ([] : List Address) := List.not_mem_nil
  exact (and_iff_left hunedited).symm

variable {d e : Document} {t : Trail}

/-- An edit links the edited cell anew and lets every other reader keep what it lacks. -/
theorem lacks_of_change {a x y : Address} (hchange : ChangedAt d a e)
    (hself : ∀ y, e.sheet.Reads a y → e.graph.Reads a y) :
    e.Lacks x y ↔ x ≠ a ∧ d.Lacks x y := by
  by_cases hx : x = a
  · subst hx
    have hnone : ¬ e.Lacks x y := fun h => h.2 (hself y h.1)
    simp [hnone]
  · rw [Lacks, Lacks, hchange.sheet_reads hx, hchange.links x y hx]
    exact (and_iff_right hx).symm

theorem lacks_store {a x y : Address} {c : Cell} :
    (d.store a c).1.Lacks x y ↔ x ≠ a ∧ d.Lacks x y :=
  lacks_of_change (changedAt_store d a c) fun _ => links_store

theorem lacks_erase {a x y : Address} : (d.erase a).Lacks x y ↔ x ≠ a ∧ d.Lacks x y :=
  lacks_of_change (changedAt_erase d a) fun _ h => absurd h Sheet.not_reads_remove_self

theorem lacks_storeAll {cs : List (Address × Cell)} (h : d.storeAll cs = .ok e) {x y : Address} :
    e.Lacks x y ↔ x ∉ cs.map (·.1) ∧ d.Lacks x y := by
  induction cs generalizing d with
  | nil =>
    cases Except.ok.inj h
    simp
  | cons entry cs ih =>
    obtain ⟨a, c⟩ := entry
    rw [storeAll, checkBounds_bind] at h
    rw [ih h.2, lacks_store, List.map_cons, List.mem_cons, not_or]
    rw [and_left_comm, and_assoc]

theorem follows_perform {op : Operation} (h : d.perform op = .ok e) (hd : d.Follows t) :
    e.Follows (d.extendTrail t op) := by
  cases op with
  | edit edit =>
    obtain ⟨⟨e, r⟩, hedit, rfl⟩ := except_map_eq_ok.mp h
    obtain ⟨a, ha, _, hcases⟩ := edit_cases hedit
    intro x y
    have hlacks : e.Lacks x y ↔ x ≠ a ∧ d.Lacks x y := by
      rcases hcases with ⟨c, rfl, _⟩ | ⟨rfl, _⟩
      · exact lacks_store
      · exact lacks_erase
    rw [hlacks, hd x y]
    simp only [extendTrail, ha, List.mem_cons, not_or]
    exact and_left_comm
  | extendRows count =>
    cases Except.ok.inj h
    exact follows_load _ d.policy
  | extendCols count =>
    cases Except.ok.inj h
    exact follows_load _ d.policy
  | importCsv text col row =>
    obtain ⟨⟨_, n⟩, himport, rfl⟩ := except_map_eq_ok.mp h
    obtain ⟨cs, hcs, hall⟩ := importCsv_eq_ok himport
    intro x y
    -- The sheet grows first, and with that its links are found anew.
    rw [lacks_storeAll hall, and_comm]
    simp only [extendTrail, hcs]
    rfl
  | sort o =>
    change (d.sheet.sort d.policy o).map d.withSheet = .ok e at h
    obtain ⟨s, hs, rfl⟩ := except_map_eq_ok.mp h
    simp only [extendTrail, hs]
    exact follows_load s d.policy

theorem follows_run {ops : List Operation} (hd : d.Follows t) :
    (d.run ops).Follows (d.trailFrom t ops) := by
  induction ops generalizing d t with
  | nil => exact hd
  | cons op ops ih =>
    rw [run, List.foldl_cons, ← run, after, trailFrom]
    cases hop : d.perform op with
    | ok e => exact ih (follows_perform hop hd)
    | error err => exact ih hd

/-- A link that was left out comes back with an edit of its reader, or when all links are found
anew; the end of its loop alone does not bring it back. -/
theorem lacked_links_close_loops_iff (s : Sheet) (policy : Policy) (ops : List Operation) :
    (∀ a b, ((load s policy).run ops).Lacks a b ↔
        (trail s policy ops).loaded.LeftOut a b ∧ a ∉ (trail s policy ops).edited) ∧
      (∀ a b, (trail s policy ops).loaded.LeftOut a b →
        (Graph.ofSheet (trail s policy ops).loaded).closesLoop a b = true) ∧
      ((∀ a b, ((load s policy).run ops).Lacks a b →
          ((load s policy).run ops).graph.closesLoop a b = true) ↔
        ∀ a b, (trail s policy ops).loaded.LeftOut a b → a ∉ (trail s policy ops).edited →
          ReflTransGen ((load s policy).run ops).graph.Reads b a) := by
  have hfollows : ((load s policy).run ops).Follows (trail s policy ops) :=
    follows_run (follows_load s policy)
  refine ⟨hfollows, fun a b h => h.closesLoop, ?_⟩
  simp only [Graph.closesLoop_iff, hfollows _ _, and_imp]

/-- Two formulas that refer to each other. -/
def loopSheet : Sheet :=
  ((Sheet.empty "s" "Sheet" 1 2).set ⟨0, 0⟩
      (.formula "=B1" (some (.ref ⟨⟨0, 1⟩, ⟨false, false⟩⟩)))).set ⟨0, 1⟩
    (.formula "=A1" (some (.ref ⟨⟨0, 0⟩, ⟨false, false⟩⟩)))

/-- The first of the two is linked, the second is not. -/
theorem ofSheet_loopSheet_reads {a b : Address} :
    (Graph.ofSheet loopSheet).Reads a b ↔ a = ⟨0, 0⟩ ∧ b = ⟨0, 1⟩ := by
  have hlinks : loopSheet.links = [(⟨0, 0⟩, ⟨0, 1⟩), (⟨0, 1⟩, ⟨0, 0⟩)] := rfl
  have hfirst : ¬ Graph.empty.closesLoop ⟨0, 0⟩ ⟨0, 1⟩ = true := by
    rw [Graph.closesLoop_iff]
    intro h
    obtain heq | ⟨x, hx, _⟩ := ReflTransGen.cases_head h
    · simp at heq
    · exact Graph.not_reads_empty hx
  have hlinked : (Graph.empty.add ⟨0, 0⟩ ⟨0, 1⟩).Reads ⟨0, 0⟩ ⟨0, 1⟩ :=
    Graph.reads_add.mpr (Or.inr ⟨rfl, rfl⟩)
  have hsecond : (Graph.empty.add ⟨0, 0⟩ ⟨0, 1⟩).closesLoop ⟨0, 1⟩ ⟨0, 0⟩ = true :=
    Graph.closesLoop_iff.mpr (.single hlinked)
  have hgraph : Graph.ofSheet loopSheet = Graph.empty.add ⟨0, 0⟩ ⟨0, 1⟩ := by
    simp [Graph.ofSheet_eq_addAll, hlinks, Graph.addAll, Graph.addUnlessLoop, hfirst, hsecond]
  rw [hgraph, Graph.reads_add]
  exact or_iff_right Graph.not_reads_empty

/-- The document behind an edit that puts a value in place of the linked formula. -/
def brokenLoop : Document :=
  (load loopSheet Policy.standard).run [.edit (.update ⟨0, 0⟩ (.literal (.bool true)))]

theorem not_brokenLoop_reads {a b : Address} : ¬ brokenLoop.graph.Reads a b := by
  intro h
  obtain ⟨hne, hold⟩ := Graph.reads_removeOutgoing.mp h
  exact hne (ofSheet_loopSheet_reads.mp hold).1

/-- The loop is gone. Still the other formula is not linked to what it reads: no edit of that cell
evaluates it anew, and no new loop through it is found. -/
theorem broken_loop_lacks_link :
    brokenLoop.Lacks ⟨0, 1⟩ ⟨0, 0⟩ ∧ brokenLoop.graph.closesLoop ⟨0, 1⟩ ⟨0, 0⟩ = false ∧
      ⟨0, 1⟩ ∉ brokenLoop.graph.closure ⟨0, 0⟩ := by
  have hmirrored : brokenLoop.graph.Mirrored := (sound_run loopSheet Policy.standard _).mirrored
  refine ⟨⟨⟨_, Sheet.get?_set_of_ne (by decide), ?_⟩, not_brokenLoop_reads⟩, ?_, ?_⟩
  · decide
  · rw [Bool.eq_false_iff]
    intro h
    obtain heq | ⟨x, hx, _⟩ := ReflTransGen.cases_head (Graph.closesLoop_iff.mp h)
    · simp at heq
    · exact not_brokenLoop_reads hx
  · intro h
    obtain ⟨x, hx, _⟩ := TransGen.head'_iff.mp ((Graph.mem_closure_iff hmirrored).mp h)
    exact not_brokenLoop_reads hx

end Document

end Recalc
