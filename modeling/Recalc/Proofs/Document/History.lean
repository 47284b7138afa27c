import Recalc.Csv.Import
import Recalc.Document.Edit
import Recalc.Document.Sort
import Recalc.Proofs.Graph.Loading

namespace Recalc

open Relation

/-- The edits of one cell, which all end with a recalculation. -/
inductive CellEdit
  | update (a : Address) (c : Cell)
  | clear (a : Address)
  | apply (e : Edit)

inductive Operation
  | edit (e : CellEdit)
  | extendRows (count : Nat)
  | extendCols (count : Nat)
  | importCsv (text : String) (col row : Nat)
  | sort (o : RowSort)

/-- The cell that an edit is about. -/
def CellEdit.cell : CellEdit → Except ReadError Address
  | update a _ => .ok a
  | clear a => .ok a
  | apply e => Address.decode e.address

namespace Document

def edit (d : Document) : CellEdit → Except EditError (Document × Recalculation)
  | .update a c => d.update a c
  | .clear a => d.clear a
  | .apply e => d.apply e

def perform (d : Document) : Operation → Except EditError Document
  | .edit e => (d.edit e).map (·.1)
  | .extendRows count => .ok (d.extendRows count)
  | .extendCols count => .ok (d.extendCols count)
  | .importCsv text col row => (d.importCsv text col row).map (·.1)
  | .sort o => d.sort o

/-- The document after an operation. One that is refused leaves it as it was. -/
def after (d : Document) (op : Operation) : Document :=
  match d.perform op with
  | .ok e => e
  | .error _ => d

/-- The document after some operations, one after another. -/
def run (d : Document) (ops : List Operation) : Document := ops.foldl after d

/-- The document without the contents of a cell. -/
def erase (d : Document) (a : Address) : Document :=
  { d with sheet := d.sheet.remove a, graph := d.graph.removeOutgoing a }

/-- What becomes of a document in which a cell is to be stored, and whether the cell is rejected. -/
inductive Stored (d : Document) (a : Address) : Cell → Document × Bool → Prop
  | unread {source : String} :
      Stored d a (.formula source none)
        ({ d with sheet := d.sheet.set a (.formula source none) }, false)
  | rejected {c : Cell} {read : Address}
      (hfirst : (d.sheet.dependencies c).find? ((d.graph.removeOutgoing a).closesLoop a) = some read) :
      Stored d a c
        ({ d with
          sheet := d.sheet.set a (.error (loopFailure a read))
          graph := d.graph.removeOutgoing a }, true)
  | accepted {c : Cell} (hread : ∀ source, c ≠ .formula source none)
      (hfree : ∀ b ∈ d.sheet.dependencies c, ¬ ReflTransGen (d.graph.removeOutgoing a).Reads b a) :
      Stored d a c
        ({ d with
          sheet := d.sheet.set a c
          graph := (d.sheet.dependencies c).foldl (fun g b => g.add a b)
            (d.graph.removeOutgoing a) }, false)

theorem stored_store (d : Document) (a : Address) (c : Cell) : Stored d a c (d.store a c) := by
  unfold store
  split
  next => exact .unread
  next hread =>
    dsimp only
    split
    next read hfirst => exact .rejected hfirst
    next hnone =>
      refine .accepted (fun source h => hread source h) ?_
      intro b hb hlead
      have hclosed := List.find?_eq_none.mp hnone b hb
      exact hclosed (Graph.closesLoop_iff.mpr hlead)

variable {d d' : Document} {r : Recalculation}

/-- One document follows from another by a change of the cell `a` and of the links out of it. -/
structure ChangedAt (d : Document) (a : Address) (e : Document) : Prop where
  policy : e.policy = d.policy
  rows : e.sheet.rows = d.sheet.rows
  cols : e.sheet.cols = d.sheet.cols
  cells : ∀ b, b ≠ a → e.sheet.get? b = d.sheet.get? b
  links : ∀ b x, b ≠ a → (e.graph.Reads b x ↔ d.graph.Reads b x)

theorem ChangedAt.sheet_reads {d e : Document} {a b x : Address} (h : ChangedAt d a e)
    (hb : b ≠ a) : e.sheet.Reads b x ↔ d.sheet.Reads b x :=
  Sheet.reads_congr h.rows h.cols (h.cells b hb)

theorem changedAt_store (d : Document) (a : Address) (c : Cell) :
    ChangedAt d a (d.store a c).1 := by
  have hset : ∀ x b, b ≠ a → (d.sheet.set a x).get? b = d.sheet.get? b :=
    fun x b hb => Sheet.get?_set_of_ne hb
  have hremoved : ∀ b x, b ≠ a → ((d.graph.removeOutgoing a).Reads b x ↔ d.graph.Reads b x) := by
    intro b x hb
    rw [Graph.reads_removeOutgoing]
    exact and_iff_right hb
  have hstored := stored_store d a c
  generalize d.store a c = result at hstored
  cases hstored with
  | unread => exact ⟨rfl, rfl, rfl, hset _, fun _ _ _ => Iff.rfl⟩
  | rejected => exact ⟨rfl, rfl, rfl, hset _, hremoved⟩
  | accepted =>
    refine ⟨rfl, rfl, rfl, hset _, ?_⟩
    intro b x hb
    rw [Graph.reads_foldl_add, hremoved b x hb]
    exact or_iff_left fun h => hb h.1

theorem changedAt_erase (d : Document) (a : Address) : ChangedAt d a (d.erase a) := by
  refine ⟨rfl, rfl, rfl, fun b hb => Sheet.get?_remove_of_ne hb, ?_⟩
  intro b x hb
  exact Graph.reads_removeOutgoing.trans (and_iff_right hb)

/-- Whatever a cell reads when it has just been stored is in the graph. -/
theorem links_store {d : Document} {a x : Address} {c : Cell}
    (h : (d.store a c).1.sheet.Reads a x) : (d.store a c).1.graph.Reads a x := by
  have hstored := stored_store d a c
  generalize d.store a c = result at hstored h
  cases hstored with
  | unread =>
    have hnone := Sheet.reads_set_self.mp h
    simp [Sheet.dependencies, Cell.expr?] at hnone
  | rejected =>
    have hnone := Sheet.reads_set_self.mp h
    simp [Sheet.dependencies, Cell.expr?] at hnone
  | accepted =>
    rw [Graph.reads_foldl_add]
    exact Or.inr ⟨rfl, Sheet.reads_set_self.mp h⟩

theorem except_map_eq_ok {ε α β : Type} {x : Except ε α} {f : α → β} {b : β} :
    x.map f = .ok b ↔ ∃ a, x = .ok a ∧ f a = b := by
  cases x with
  | error e => simp [Except.map]
  | ok a => simp [Except.map]

theorem except_map_eq_error {ε α β : Type} {x : Except ε α} {f : α → β} {err : ε} :
    x.map f = .error err ↔ x = .error err := by
  cases x with
  | error other => simp [Except.map]
  | ok a => simp [Except.map]

theorem checkBounds_bind {α : Type} {a : Address} {f : Unit → Except EditError α} {x : α} :
    (d.checkBounds a >>= f) = .ok x ↔ d.sheet.contains a = true ∧ f () = .ok x := by
  unfold checkBounds
  split
  next h => simp [h, bind, Except.bind]
  next h => simp [h, bind, Except.bind]

theorem update_eq_ok {a : Address} {c : Cell} :
    d.update a c = .ok (d', r) ↔ d.sheet.contains a = true ∧ (d.store a c).1 = d' ∧
      d'.recalculate a (d.store a c).2 = r := by
  unfold update
  rw [checkBounds_bind]
  refine and_congr_right fun _ => ?_
  constructor
  · intro h
    obtain ⟨rfl, rfl⟩ := Prod.mk.inj (Except.ok.inj h)
    exact ⟨rfl, rfl⟩
  · rintro ⟨rfl, rfl⟩
    rfl

theorem edit_update {a : Address} {c : Cell} (h : d.sheet.contains a = true) :
    d.edit (.update a c) = .ok ((d.store a c).1, (d.store a c).1.recalculate a (d.store a c).2) :=
  update_eq_ok.mpr ⟨h, rfl, rfl⟩

theorem clear_eq_ok {a : Address} :
    d.clear a = .ok (d', r) ↔ d.sheet.contains a = true ∧ d.erase a = d' ∧
      d'.recalculate a false = r := by
  unfold clear
  rw [checkBounds_bind]
  refine and_congr_right fun _ => ?_
  constructor
  · intro h
    obtain ⟨rfl, rfl⟩ := Prod.mk.inj (Except.ok.inj h)
    exact ⟨rfl, rfl⟩
  · rintro ⟨rfl, rfl⟩
    rfl

/-- An edit that is carried out stores or erases the cell that it is about. -/
theorem edit_cases {e : CellEdit} (h : d.edit e = .ok (d', r)) :
    ∃ a, e.cell = .ok a ∧ d.sheet.contains a = true ∧
      ((∃ c, (d.store a c).1 = d' ∧ d'.recalculate a (d.store a c).2 = r) ∨
        (d.erase a = d' ∧ d'.recalculate a false = r)) := by
  cases e with
  | update a c =>
    obtain ⟨hin, hdoc, hr⟩ := update_eq_ok.mp h
    exact ⟨a, rfl, hin, Or.inl ⟨c, hdoc, hr⟩⟩
  | clear a =>
    obtain ⟨hin, hdoc, hr⟩ := clear_eq_ok.mp h
    exact ⟨a, rfl, hin, Or.inr ⟨hdoc, hr⟩⟩
  | apply e =>
    change d.apply e = .ok (d', r) at h
    unfold Document.apply at h
    cases ha : Address.decode e.address with
    | error err =>
      rw [ha] at h
      cases h
    | ok a =>
      refine ⟨a, ha, ?_⟩
      rw [ha] at h
      cases haction : e.action with
      | clear =>
        rw [haction] at h
        have hclear : d.clear a = .ok (d', r) := h
        obtain ⟨hin, hdoc, hr⟩ := clear_eq_ok.mp hclear
        exact ⟨hin, Or.inr ⟨hdoc, hr⟩⟩
      | formula source =>
        rw [haction] at h
        have hupdate : d.update a (.ofFormula source) = .ok (d', r) := h
        obtain ⟨hin, hdoc, hr⟩ := update_eq_ok.mp hupdate
        exact ⟨hin, Or.inl ⟨_, hdoc, hr⟩⟩
      | literal v =>
        rw [haction] at h
        have hupdate : d.update a (.literal v) = .ok (d', r) := h
        obtain ⟨hin, hdoc, hr⟩ := update_eq_ok.mp hupdate
        exact ⟨hin, Or.inl ⟨_, hdoc, hr⟩⟩

theorem importCsv_eq_ok {text : String} {col row n : Nat}
    (h : d.importCsv text col row = .ok (d', n)) :
    ∃ cs, Csv.cells text col row = .ok cs ∧
      ((d.extendRows (Csv.rowsNeeded cs - d.sheet.rows)).extendCols
        (Csv.colsNeeded cs - d.sheet.cols)).storeAll cs = .ok d' := by
  unfold importCsv at h
  cases hcs : Csv.cells text col row with
  | error err =>
    rw [hcs] at h
    cases h
  | ok cs =>
    rw [hcs] at h
    refine ⟨cs, rfl, ?_⟩
    change (((d.extendRows (Csv.rowsNeeded cs - d.sheet.rows)).extendCols
      (Csv.colsNeeded cs - d.sheet.cols)).storeAll cs >>= fun e => .ok (e, cs.length)) =
        .ok (d', n) at h
    cases hstore : ((d.extendRows (Csv.rowsNeeded cs - d.sheet.rows)).extendCols
        (Csv.colsNeeded cs - d.sheet.cols)).storeAll cs with
    | error err =>
      rw [hstore] at h
      cases h
    | ok e =>
      rw [hstore] at h
      obtain ⟨rfl, -⟩ := Prod.mk.inj (Except.ok.inj h)
      rfl

theorem storeAll_invariant {P : Document → Prop} {cs : List (Address × Cell)}
    (h : d.storeAll cs = .ok d')
    (hstore : ∀ d a c, d.sheet.contains a = true → P d → P (d.store a c).1) (hd : P d) : P d' := by
  induction cs generalizing d with
  | nil =>
    cases Except.ok.inj h
    exact hd
  | cons entry cs ih =>
    obtain ⟨a, c⟩ := entry
    rw [storeAll, checkBounds_bind] at h
    exact ih h.2 (hstore d a c h.1 hd)

theorem perform_invariant {P : Document → Prop} {op : Operation} (h : d.perform op = .ok d')
    (hrows : ∀ d count, P d → P (d.extendRows count))
    (hcols : ∀ d count, P d → P (d.extendCols count))
    (hsort : ∀ d o s, op = .sort o → d.sheet.sort d.policy o = .ok s → P d → P (d.withSheet s))
    (hstore : ∀ d a c, d.sheet.contains a = true → P d → P (d.store a c).1)
    (herase : ∀ d a, d.sheet.contains a = true → P d → P (d.erase a)) (hd : P d) : P d' := by
  cases op with
  | edit e =>
    obtain ⟨⟨_, r⟩, hedit, rfl⟩ := except_map_eq_ok.mp h
    obtain ⟨a, _, hin, ⟨c, rfl, _⟩ | ⟨rfl, _⟩⟩ := edit_cases hedit
    · exact hstore d a c hin hd
    · exact herase d a hin hd
  | extendRows count =>
    cases Except.ok.inj h
    exact hrows d count hd
  | extendCols count =>
    cases Except.ok.inj h
    exact hcols d count hd
  | importCsv text col row =>
    obtain ⟨⟨_, n⟩, himport, rfl⟩ := except_map_eq_ok.mp h
    obtain ⟨cs, _, hall⟩ := importCsv_eq_ok himport
    exact storeAll_invariant hall hstore (hcols _ _ (hrows _ _ hd))
  | sort o =>
    change (d.sheet.sort d.policy o).map d.withSheet = .ok d' at h
    obtain ⟨s, hs, rfl⟩ := except_map_eq_ok.mp h
    exact hsort d o s rfl hs hd

/-- What loading, storing and erasing keep holds all along a history. -/
theorem run_invariant {P : Document → Prop} {ops : List Operation}
    (hrows : ∀ d count, P d → P (d.extendRows count))
    (hcols : ∀ d count, P d → P (d.extendCols count))
    (hsort : ∀ d o s, .sort o ∈ ops → d.sheet.sort d.policy o = .ok s → P d → P (d.withSheet s))
    (hstore : ∀ d a c, d.sheet.contains a = true → P d → P (d.store a c).1)
    (herase : ∀ d a, d.sheet.contains a = true → P d → P (d.erase a)) (hd : P d) :
    P (d.run ops) := by
  induction ops generalizing d with
  | nil => exact hd
  | cons op ops ih =>
    refine ih (fun d o s hmem => hsort d o s (List.mem_cons_of_mem _ hmem)) ?_
    unfold after
    split
    next e he =>
      refine perform_invariant he hrows hcols ?_ hstore herase hd
      rintro d o s rfl hs hd
      exact hsort d o s List.mem_cons_self hs hd
    next => exact hd

end Document

end Recalc
