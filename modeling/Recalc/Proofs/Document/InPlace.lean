import Recalc.Proofs.Document.Import

namespace Recalc

namespace Document

/-- A program that changes a document in place. What it did before an error stays done. -/
abbrev InPlace (α : Type) := EStateM EditError Document α

namespace InPlace

/-- Go on with a result, or end with its error. -/
def ofExcept {α : Type} : Except EditError α → InPlace α
  | .ok x => pure x
  | .error err => throw err

def checkBounds (a : Address) : InPlace Unit := do
  ofExcept ((← get).checkBounds a)

def setSheet (s : Sheet) : InPlace Unit := modify fun d => { d with sheet := s }

def setGraph (g : Graph) : InPlace Unit := modify fun d => { d with graph := g }

def relink : InPlace Unit := do setGraph (Graph.ofSheet (← get).sheet)

/-- Store a cell and tell whether it is rejected. The old links of a readable cell go first. -/
def store (a : Address) (c : Cell) : InPlace Bool := do
  match c with
  | .formula _ none =>
    setSheet ((← get).sheet.set a c)
    return false
  | _ =>
    setGraph ((← get).graph.removeOutgoing a)
    let d ← get
    let reads := d.sheet.dependencies c
    match reads.find? (d.graph.closesLoop a) with
    | some read =>
      setSheet (d.sheet.set a (.error (loopFailure a read)))
      return true
    | none =>
      setGraph (reads.foldl (fun g read => g.add a read) d.graph)
      setSheet (d.sheet.set a c)
      return false

def update (a : Address) (c : Cell) : InPlace Recalculation := do
  checkBounds a
  let rejected ← store a c
  return (← get).recalculate a rejected

def clear (a : Address) : InPlace Recalculation := do
  checkBounds a
  setGraph ((← get).graph.removeOutgoing a)
  setSheet ((← get).sheet.remove a)
  return (← get).recalculate a false

def apply (e : Edit) : InPlace Recalculation := do
  let a ← ofExcept ((Address.decode e.address).mapError .address)
  match e.action with
  | .clear => clear a
  | .formula source => update a (.ofFormula source)
  | .literal v => update a (.literal v)

def edit : CellEdit → InPlace Recalculation
  | .update a c => update a c
  | .clear a => clear a
  | .apply e => apply e

def extendRows (count : Nat) : InPlace Unit := do
  setSheet ((← get).sheet.extendRows count)
  relink

def extendCols (count : Nat) : InPlace Unit := do
  setSheet ((← get).sheet.extendCols count)
  relink

def sort (o : RowSort) : InPlace Unit := do
  let d ← get
  let s ← ofExcept (d.sheet.sort d.policy o)
  setSheet s
  relink

/-- Each cell is an update of its own, which could be refused after others have been made. -/
def updateAll : List (Address × Cell) → InPlace Unit
  | [] => return ()
  | (a, c) :: rest => do
    let _ ← update a c
    updateAll rest

/-- The document is made large enough before the first cell is written. -/
def importCsv (text : String) (col row : Nat) : InPlace Nat := do
  let cs ← ofExcept (Csv.cells text col row)
  extendRows (Csv.rowsNeeded cs - (← get).sheet.rows)
  extendCols (Csv.colsNeeded cs - (← get).sheet.cols)
  updateAll cs
  return cs.length

def perform : Operation → InPlace Unit
  | .edit e => do let _ ← edit e
  | .extendRows count => extendRows count
  | .extendCols count => extendCols count
  | .importCsv text col row => do let _ ← importCsv text col row
  | .sort o => sort o

end InPlace

/-- How a change in place ends that is made as a whole or not at all. -/
def settled {α : Type} (d : Document) : Except EditError (Document × α) →
    EStateM.Result EditError Document α
  | .ok (e, x) => .ok x e
  | .error err => .error err d

variable {d : Document}

section Run

variable {α β : Type}

theorem ofExcept_bind {x : Except EditError β} {p : β → InPlace α}
    {f : β → Except EditError (Document × α)}
    (h : ∀ b, x = .ok b → p b d = settled d (f b)) :
    (InPlace.ofExcept x >>= p) d = settled d (x >>= f) := by
  cases x with
  | error err => rfl
  | ok b => exact h b rfl

theorem bind_of_ok {p : InPlace β} {f : β → InPlace α} {b : β} {e : Document} (h : p d = .ok b e) :
    (p >>= f) d = f b e := by
  change EStateM.bind p f d = f b e
  rw [EStateM.bind, h]

theorem get_bind {p : Document → InPlace α} : (get >>= p) d = p d d :=
  rfl

theorem setGraph_bind {g : Graph} {p : Unit → InPlace α} :
    (InPlace.setGraph g >>= p) d = p () { d with graph := g } :=
  rfl

end Run

theorem store_inPlace (d : Document) (a : Address) (c : Cell) :
    InPlace.store a c d = .ok (d.store a c).2 (d.store a c).1 := by
  rcases c with v | ⟨source, _ | expr⟩ | f
  case formula.none => rfl
  all_goals
    simp only [InPlace.store, store, get_bind, setGraph_bind]
    generalize hfound : List.find? _ _ = found
    cases found with
    | some read => rfl
    | none => rfl

theorem update_inPlace (d : Document) (a : Address) (c : Cell) :
    InPlace.update a c d = settled d (d.update a c) :=
  ofExcept_bind (x := d.checkBounds a) fun _ _ => bind_of_ok (store_inPlace d a c)

theorem clear_inPlace (d : Document) (a : Address) :
    InPlace.clear a d = settled d (d.clear a) :=
  ofExcept_bind (x := d.checkBounds a) fun _ _ => rfl

theorem apply_inPlace (d : Document) (e : Edit) :
    InPlace.apply e d = settled d (d.apply e) := by
  refine ofExcept_bind fun a _ => ?_
  cases e.action with
  | clear => exact clear_inPlace d a
  | formula source => exact update_inPlace d a _
  | literal v => exact update_inPlace d a _

theorem edit_inPlace (d : Document) (e : CellEdit) : InPlace.edit e d = settled d (d.edit e) := by
  cases e with
  | update a c => exact update_inPlace d a c
  | clear a => exact clear_inPlace d a
  | apply e => exact apply_inPlace d e

theorem extendRows_inPlace (d : Document) (count : Nat) :
    InPlace.extendRows count d = .ok () (d.extendRows count) :=
  rfl

theorem extendCols_inPlace (d : Document) (count : Nat) :
    InPlace.extendCols count d = .ok () (d.extendCols count) :=
  rfl

theorem sort_inPlace (d : Document) (o : RowSort) :
    InPlace.sort o d = settled d ((d.sort o).map fun e => (e, ())) := by
  unfold InPlace.sort Document.sort
  rw [get_bind]
  cases d.sheet.sort d.policy o with
  | error err => rfl
  | ok s => rfl

/-- Updates of cells inside the sheet are all made. -/
theorem updateAll_inPlace {cs : List (Address × Cell)} {d : Document}
    (hin : ∀ entry ∈ cs, d.sheet.contains entry.1 = true) :
    ∃ e, InPlace.updateAll cs d = .ok () e ∧ d.storeAll cs = .ok e := by
  induction cs generalizing d with
  | nil => exact ⟨d, rfl, rfl⟩
  | cons entry cs ih =>
    obtain ⟨a, c⟩ := entry
    obtain ⟨ha, hcs⟩ := List.forall_mem_cons.mp hin
    obtain ⟨e, hupdates, hstores⟩ := ih (d := (d.store a c).1) fun entry h =>
      contains_store.trans (hcs entry h)
    refine ⟨e, ?_, checkBounds_bind.mpr ⟨ha, hstores⟩⟩
    have hfirst : InPlace.update a c d = .ok ((d.store a c).1.recalculate a (d.store a c).2)
        (d.store a c).1 := by
      rw [update_inPlace, update_eq_ok.mpr ⟨ha, rfl, rfl⟩, settled]
    exact (bind_of_ok hfirst).trans hupdates

/-- The document in a size that leaves room for some cells. -/
def grownFor (d : Document) (cs : List (Address × Cell)) : Document :=
  (d.extendRows (Csv.rowsNeeded cs - d.sheet.rows)).extendCols (Csv.colsNeeded cs - d.sheet.cols)

theorem contains_grownFor {cs : List (Address × Cell)} {entry : Address × Cell}
    (hplaces : ∀ entry ∈ cs, entry.1.row < Address.limit ∧ entry.1.col < Address.limit)
    (h : entry ∈ cs) : (d.grownFor cs).sheet.contains entry.1 = true := by
  have hrow := Csv.rowsNeeded_le_iff.mp (Nat.le_refl _) entry h
  have hcol := Csv.colsNeeded_le_iff.mp (Nat.le_refl _) entry h
  obtain ⟨hrow', hcol'⟩ := hplaces entry h
  refine Sheet.contains_iff.mpr ⟨?_, ?_⟩
  · change entry.1.row < min (d.sheet.rows + (Csv.rowsNeeded cs - d.sheet.rows)) Address.limit
    omega
  · change entry.1.col < min (d.sheet.cols + (Csv.colsNeeded cs - d.sheet.cols)) Address.limit
    omega

/-- An import that finds its cells writes all of them. -/
theorem importCsv_inPlace (d : Document) {text : String} {col row : Nat}
    {cs : List (Address × Cell)} (hcs : Csv.cells text col row = .ok cs)
    (hplaces : ∀ entry ∈ cs, entry.1.row < Address.limit ∧ entry.1.col < Address.limit) :
    ∃ e, InPlace.importCsv text col row d = .ok cs.length e ∧
      d.importCsv text col row = .ok (e, cs.length) := by
  obtain ⟨e, hupdates, hstores⟩ := updateAll_inPlace (d := d.grownFor cs) fun entry h =>
    contains_grownFor hplaces h
  refine ⟨e, ?_, ?_⟩
  · unfold InPlace.importCsv
    rw [hcs]
    change (InPlace.updateAll cs >>= fun _ => pure cs.length) (d.grownFor cs) = .ok cs.length e
    exact bind_of_ok hupdates
  · unfold Document.importCsv
    rw [hcs]
    change ((d.grownFor cs).storeAll cs >>= fun e => .ok (e, cs.length)) = .ok (e, cs.length)
    rw [hstores]
    rfl

/-- What an operation reports is left out on both sides. -/
theorem unreported {α : Type} {p : InPlace α} {x : Except EditError (Document × α)}
    (h : p d = settled d x) :
    (do let _ ← p : InPlace Unit) d = settled d ((x.map (·.1)).map fun e => (e, ())) := by
  cases x with
  | error err =>
    change EStateM.bind p _ d = _
    rw [EStateM.bind, h]
    rfl
  | ok result => exact bind_of_ok h

end Document

/-- The rows and columns that an import writes to can be counted. -/
def Operation.Countable : Operation → Prop
  | .importCsv text col row => ∀ cs, Csv.cells text col row = .ok cs →
      ∀ entry ∈ cs, entry.1.row < Address.limit ∧ entry.1.col < Address.limit
  | _ => True

namespace Document

variable {d : Document}

theorem importCsv_eq_error {text : String} {col row : Nat} {err : EditError}
    (hcount : (Operation.importCsv text col row).Countable)
    (h : d.importCsv text col row = .error err) : Csv.cells text col row = .error err := by
  cases hcs : Csv.cells text col row with
  | error other =>
    unfold Document.importCsv at h
    rw [hcs] at h
    cases h
    rfl
  | ok cs =>
    obtain ⟨e, _, himport⟩ := importCsv_inPlace d hcs (hcount cs hcs)
    rw [himport] at h
    cases h

theorem perform_inPlace (d : Document) (op : Operation) (hcount : op.Countable) :
    InPlace.perform op d = settled d ((d.perform op).map fun e => (e, ())) := by
  cases op with
  | edit e => exact unreported (edit_inPlace d e)
  | extendRows count => exact extendRows_inPlace d count
  | extendCols count => exact extendCols_inPlace d count
  | importCsv text col row =>
    refine unreported (x := d.importCsv text col row) ?_
    cases hcs : Csv.cells text col row with
    | error err =>
      unfold InPlace.importCsv Document.importCsv
      rw [hcs]
      rfl
    | ok cs =>
      obtain ⟨e, hin, himport⟩ := importCsv_inPlace d hcs (hcount cs hcs)
      rw [hin, himport, settled]
  | sort o => exact sort_inPlace d o

/-- An operation is made as a whole, or it ends with an error and the document is as it was. What
makes an import fail is its text, which is read before anything is changed. -/
theorem perform_inPlace_whole_or_not (d : Document) (op : Operation) (hcount : op.Countable) :
    (∃ e, InPlace.perform op d = .ok () e ∧ d.perform op = .ok e) ∨
      ∃ err, InPlace.perform op d = .error err d ∧ d.perform op = .error err ∧
        ∀ text col row, op = .importCsv text col row → Csv.cells text col row = .error err := by
  rw [perform_inPlace d op hcount]
  cases h : d.perform op with
  | ok e => exact Or.inl ⟨e, rfl, rfl⟩
  | error err =>
    refine Or.inr ⟨err, rfl, rfl, ?_⟩
    rintro text col row rfl
    exact importCsv_eq_error hcount (except_map_eq_error.mp h)

/-- A text and a formula are imported over the pair, but not a text in whose second line a quote
stays open. -/
theorem perform_inPlace_whole_or_not_pair :
    (Operation.importCsv "x,=A1" 0 0).Countable ∧ (Operation.importCsv "x\n\"y" 0 0).Countable ∧
      (∃ e, InPlace.perform (.importCsv "x,=A1" 0 0) (load pairSheet Policy.standard) = .ok () e) ∧
      InPlace.perform (.importCsv "x\n\"y" 0 0) (load pairSheet Policy.standard) =
        .error (.csv 2) (load pairSheet Policy.standard) := by
  have hcells : Csv.cells "x,=A1" 0 0 = .ok [(⟨0, 0⟩, .literal (.text "x")),
      (⟨0, 1⟩, .formula "=A1" (some (.ref ⟨⟨0, 0⟩, ⟨false, false⟩⟩)))] := by
    with_unfolding_all rfl
  have hopen : Csv.cells "x\n\"y" 0 0 = .error (.csv 2) := by with_unfolding_all rfl
  have hcount : (Operation.importCsv "x,=A1" 0 0).Countable := by
    intro cs hcs
    cases hcells.symm.trans hcs
    decide
  have hcount' : (Operation.importCsv "x\n\"y" 0 0).Countable := by
    intro cs hcs
    cases hopen.symm.trans hcs
  refine ⟨hcount, hcount', ?_, ?_⟩
  · rcases perform_inPlace_whole_or_not (load pairSheet Policy.standard) _ hcount with
      ⟨e, he, _⟩ | ⟨err, _, _, htext⟩
    · exact ⟨e, he⟩
    · cases hcells.symm.trans (htext _ _ _ rfl)
  · rcases perform_inPlace_whole_or_not (load pairSheet Policy.standard) _ hcount' with
      ⟨e, _, himport⟩ | ⟨err, herr, _, htext⟩
    · change ((load pairSheet Policy.standard).importCsv "x\n\"y" 0 0).map (·.1) = .ok e at himport
      obtain ⟨_, himport, _⟩ := except_map_eq_ok.mp himport
      obtain ⟨cs, hcs, _⟩ := importCsv_eq_ok himport
      cases hopen.symm.trans hcs
    · cases hopen.symm.trans (htext _ _ _ rfl)
      exact herr

end Document

end Recalc
