import Recalc.Proofs.Document.Linked

namespace Recalc

open Relation

namespace Sheet

/-- `t` with what `s` holds at `a`, unless that is a formula that cannot be read. -/
def adopt (t s : Sheet) (a : Address) : Sheet :=
  match s.get? a with
  | some (.formula _ none) => t
  | some c => t.set a c
  | none => t.remove a

variable {s t : Sheet} {a b : Address}

theorem adopt_of_unread (h : s.Unread a) : t.adopt s a = t := by
  obtain ⟨source, hsource⟩ := h
  simp [adopt, hsource]

theorem adopt_rows : (t.adopt s a).rows = t.rows := by
  unfold adopt
  split <;> rfl

theorem adopt_cols : (t.adopt s a).cols = t.cols := by
  unfold adopt
  split <;> rfl

theorem get?_adopt_of_ne (h : b ≠ a) : (t.adopt s a).get? b = t.get? b := by
  unfold adopt
  split
  · rfl
  · exact get?_set_of_ne h
  · exact get?_remove_of_ne h

theorem get?_adopt_self (h : ¬ s.Unread a) : (t.adopt s a).get? a = s.get? a := by
  unfold adopt
  split
  next source hc => exact absurd ⟨source, hc⟩ h
  next c _ hc => rw [get?_set, if_pos rfl, hc]
  next hc => rw [get?_remove, if_pos rfl, hc]

end Sheet

namespace Document

/-- `t` with some cells that are stored one after another, formulas that cannot be read left out. -/
def adoptAll (d : Document) (t : Sheet) : List (Address × Cell) → Sheet
  | [] => t
  | (a, c) :: rest => (d.store a c).1.adoptAll (t.adopt (d.store a c).1.sheet a) rest

/-- The readable sheet behind an operation that is carried out and leads to `e`. -/
def extendReadable (d : Document) (t : Sheet) (e : Document) : Operation → Sheet
  | .edit edit =>
    match edit.cell with
    | .ok a => t.adopt e.sheet a
    | .error _ => t
  | .importCsv text col row =>
    match Csv.cells text col row with
    | .ok cs =>
      -- An import makes room first, if only by nothing, so the links are found anew.
      let grown := (d.extendRows (Csv.rowsNeeded cs - d.sheet.rows)).extendCols
        (Csv.colsNeeded cs - d.sheet.cols)
      grown.adoptAll grown.sheet cs
    | .error _ => t
  | .extendRows _ => e.sheet
  | .extendCols _ => e.sheet
  | .sort _ => e.sheet

def readableFrom (d : Document) (t : Sheet) : List Operation → Sheet
  | [] => t
  | op :: ops =>
    match d.perform op with
    | .ok e => e.readableFrom (d.extendReadable t e op) ops
    | .error _ => d.readableFrom t ops

/-- The sheet behind some operations, as if no formula that cannot be read had been stored since
the links were last found anew: what it was written over still stands there. -/
def readable (s : Sheet) (policy : Policy) (ops : List Operation) : Sheet :=
  (load s policy).readableFrom s ops

/-- The graph knows exactly what the formulas of `t` read, and the sheet differs from `t` only where
it holds formulas that cannot be read. -/
structure Tracks (d : Document) (t : Sheet) : Prop where
  linked : d.Linked
  rows : t.rows = d.sheet.rows
  cols : t.cols = d.sheet.cols
  cells : ∀ a, ¬ d.sheet.Unread a → t.get? a = d.sheet.get? a
  links : ∀ a b, d.graph.Reads a b ↔ t.Reads a b

variable {d e : Document} {t : Sheet} {a : Address}

theorem Tracks.load {s : Sheet} {policy : Policy} (h : (load s policy).Linked) :
    (Document.load s policy).Tracks s :=
  ⟨h, rfl, rfl, fun _ _ => rfl, fun a b => ⟨Graph.reads_of_ofSheet, h.links a b⟩⟩

theorem Tracks.change (h : d.Tracks t) (hchange : ChangedAt d a e) (hlinked : e.Linked)
    (hself : (e.sheet.Unread a ∧ ∀ b, e.graph.Reads a b ↔ d.graph.Reads a b) ∨
      (¬ e.sheet.Unread a ∧ ∀ b, e.graph.Reads a b ↔ e.sheet.Reads a b)) :
    e.Tracks (t.adopt e.sheet a) := by
  have hrows : (t.adopt e.sheet a).rows = e.sheet.rows :=
    Sheet.adopt_rows.trans (h.rows.trans hchange.rows.symm)
  have hcols : (t.adopt e.sheet a).cols = e.sheet.cols :=
    Sheet.adopt_cols.trans (h.cols.trans hchange.cols.symm)
  refine ⟨hlinked, hrows, hcols, ?_, ?_⟩
  · intro b hread
    by_cases hb : b = a
    · subst hb
      exact Sheet.get?_adopt_self hread
    · have hread' : ¬ d.sheet.Unread b := by
        rwa [Sheet.Unread, hchange.cells b hb] at hread
      rw [Sheet.get?_adopt_of_ne hb, h.cells b hread', hchange.cells b hb]
  · intro b x
    by_cases hb : b = a
    · subst hb
      rcases hself with ⟨hunread, hkept⟩ | ⟨hread, hnew⟩
      · rw [Sheet.adopt_of_unread hunread, hkept, h.links]
      · rw [hnew, Sheet.reads_congr hrows hcols (Sheet.get?_adopt_self hread)]
    · have hold : (t.adopt e.sheet a).Reads b x ↔ t.Reads b x :=
        Sheet.reads_congr Sheet.adopt_rows Sheet.adopt_cols (Sheet.get?_adopt_of_ne hb)
      rw [hchange.links b x hb, h.links, hold]

theorem Tracks.store (h : d.Tracks t) (hin : d.sheet.contains a = true) (c : Cell) :
    (d.store a c).1.Tracks (t.adopt (d.store a c).1.sheet a) := by
  refine h.change (changedAt_store d a c) (h.linked.store hin c) ?_
  have hlinks := fun b => @links_store d a b c
  have hstored := stored_store d a c
  generalize d.store a c = result at hstored hlinks
  cases hstored with
  | @unread source => exact Or.inl ⟨⟨source, Sheet.get?_set.trans (if_pos rfl)⟩, fun _ => Iff.rfl⟩
  | rejected =>
    refine Or.inr ⟨?_, fun b => ⟨fun hb => ?_, hlinks b⟩⟩
    · rintro ⟨source, hsource⟩
      rw [Sheet.get?_set, if_pos rfl] at hsource
      cases hsource
    · exact absurd rfl (Graph.reads_removeOutgoing.mp hb).1
  | accepted hread =>
    refine Or.inr ⟨?_, fun b => ⟨fun hb => ?_, hlinks b⟩⟩
    · rintro ⟨source, hsource⟩
      rw [Sheet.get?_set, if_pos rfl] at hsource
      exact hread source (Option.some.inj hsource)
    · rcases Graph.reads_foldl_add.mp hb with hold | ⟨_, hb⟩
      · exact absurd rfl (Graph.reads_removeOutgoing.mp hold).1
      · exact Sheet.reads_set_self.mpr hb

theorem Tracks.erase (h : d.Tracks t) (hin : d.sheet.contains a = true) :
    (d.erase a).Tracks (t.adopt (d.erase a).sheet a) := by
  refine h.change (changedAt_erase d a) (h.linked.erase hin) (Or.inr ⟨?_, fun b => ?_⟩)
  · rintro ⟨source, hsource⟩
    rw [Document.erase, Sheet.get?_remove, if_pos rfl] at hsource
    cases hsource
  · have hgraph : ¬ (d.erase a).graph.Reads a b :=
      fun hb => (Graph.reads_removeOutgoing.mp hb).1 rfl
    exact iff_of_false hgraph Sheet.not_reads_remove_self

theorem Tracks.storeAll {cs : List (Address × Cell)} (h : d.Tracks t)
    (hall : d.storeAll cs = .ok e) : e.Tracks (d.adoptAll t cs) := by
  induction cs generalizing d t with
  | nil =>
    cases Except.ok.inj hall
    exact h
  | cons entry cs ih =>
    obtain ⟨a, c⟩ := entry
    rw [Document.storeAll, checkBounds_bind] at hall
    exact ih (h.store hall.1 c) hall.2

theorem Tracks.perform {op : Operation} (h : d.Tracks t) (hop : d.perform op = .ok e)
    (hsort : ∀ o, op ≠ .sort o) : e.Tracks (d.extendReadable t e op) := by
  cases op with
  | edit edit =>
    obtain ⟨⟨e, r⟩, hedit, rfl⟩ := except_map_eq_ok.mp hop
    obtain ⟨a, ha, hin, hcases⟩ := edit_cases hedit
    simp only [extendReadable, ha]
    rcases hcases with ⟨c, rfl, _⟩ | ⟨rfl, _⟩
    · exact h.store hin c
    · exact h.erase hin
  | extendRows count =>
    cases Except.ok.inj hop
    exact Tracks.load (h.linked.extendRows count)
  | extendCols count =>
    cases Except.ok.inj hop
    exact Tracks.load (h.linked.extendCols count)
  | importCsv text col row =>
    obtain ⟨⟨_, n⟩, himport, rfl⟩ := except_map_eq_ok.mp hop
    obtain ⟨cs, hcs, hall⟩ := importCsv_eq_ok himport
    simp only [extendReadable, hcs]
    exact (Tracks.load ((h.linked.extendRows _).extendCols _)).storeAll hall
  | sort o => exact absurd rfl (hsort o)

theorem Tracks.run {ops : List Operation} (h : d.Tracks t) (hsort : ∀ o, Operation.sort o ∉ ops) :
    (d.run ops).Tracks (d.readableFrom t ops) := by
  induction ops generalizing d t with
  | nil => exact h
  | cons op ops ih =>
    have hrest : ∀ o, Operation.sort o ∉ ops := fun o hmem => hsort o (List.mem_cons_of_mem _ hmem)
    rw [Document.run, List.foldl_cons, ← Document.run, after, readableFrom]
    cases hop : d.perform op with
    | ok e =>
      refine ih (h.perform hop ?_) hrest
      rintro o rfl
      exact hsort o List.mem_cons_self
    | error err => exact ih h hrest

/-- All along a history without a sort, the graph holds what the readable formulas read. -/
theorem tracks_run {s : Sheet} (policy : Policy)
    (hinside : ∀ a c, s.get? a = some c → s.contains a = true)
    (hfree : ∀ a, ¬ TransGen s.Reads a a) {ops : List Operation}
    (hsort : ∀ o, Operation.sort o ∉ ops) :
    ((Document.load s policy).run ops).Tracks (readable s policy ops) :=
  (Tracks.load (Linked.load policy (keptOut_of_inside hinside) hfree)).run hsort

/-- Where the formula of a cell can be read, the graph knows of what the cell reads and no more. -/
theorem Tracks.reads_iff (h : d.Tracks t) (hread : ¬ d.sheet.Unread a) (b : Address) :
    d.graph.Reads a b ↔ d.sheet.Reads a b := by
  rw [h.links, Sheet.reads_congr h.rows h.cols (h.cells a hread)]

end Document

end Recalc
