import Mathlib.Data.List.Induction
import Recalc.Proofs.Csv.Cells
import Recalc.Proofs.Document.Linked

namespace Recalc

open Relation

namespace Sheet

/-- The sheet with some cells stored in place. -/
def overlay (s : Sheet) (cs : List (Address × Cell)) : Sheet :=
  cs.foldl (fun s (a, c) => s.set a c) s

/-- The sheet, large enough for some cells. -/
def grownFor (s : Sheet) (cs : List (Address × Cell)) : Sheet :=
  { s with rows := max s.rows (Csv.rowsNeeded cs), cols := max s.cols (Csv.colsNeeded cs) }

variable {s : Sheet} {cs : List (Address × Cell)} {a : Address} {c : Cell}

theorem overlay_concat : s.overlay (cs ++ [(a, c)]) = (s.overlay cs).set a c := by
  rw [overlay, List.foldl_append]
  rfl

theorem overlay_rows : (s.overlay cs).rows = s.rows := by
  induction cs using List.reverseRecOn with
  | nil => rfl
  | append_singleton cs entry ih => rwa [overlay_concat]

theorem overlay_cols : (s.overlay cs).cols = s.cols := by
  induction cs using List.reverseRecOn with
  | nil => rfl
  | append_singleton cs entry ih => rwa [overlay_concat]

theorem get?_overlay_of_not_mem (h : a ∉ cs.map (·.1)) : (s.overlay cs).get? a = s.get? a := by
  induction cs using List.reverseRecOn with
  | nil => rfl
  | append_singleton cs entry ih =>
    rw [List.map_append, List.mem_append, not_or, List.map_singleton, List.mem_singleton] at h
    rw [overlay_concat, get?_set_of_ne h.2, ih h.1]

theorem get?_overlay_of_mem (hnodup : (cs.map (·.1)).Nodup) (h : (a, c) ∈ cs) :
    (s.overlay cs).get? a = some c := by
  induction cs using List.reverseRecOn with
  | nil => cases h
  | append_singleton cs entry ih =>
    rw [List.map_append, List.nodup_append] at hnodup
    obtain ⟨hnodup, _, hne⟩ := hnodup
    rw [overlay_concat]
    rcases List.mem_append.mp h with h | h
    · have hother : a ≠ entry.1 := hne a (List.mem_map_of_mem h) entry.1 List.mem_cons_self
      rw [get?_set_of_ne hother, ih hnodup h]
    · obtain rfl := List.mem_singleton.mp h
      rw [get?_set, if_pos rfl]

theorem get?_overlay_empty {id name : String} {rows cols : Nat} (hnodup : (cs.map (·.1)).Nodup) :
    ((empty id name rows cols).overlay cs).get? a = some c ↔ (a, c) ∈ cs := by
  refine ⟨fun hc => ?_, get?_overlay_of_mem hnodup⟩
  by_cases ha : a ∈ cs.map (·.1)
  · obtain ⟨entry, hentry, rfl⟩ := List.mem_map.mp ha
    rw [get?_overlay_of_mem hnodup hentry] at hc
    exact Option.some.inj hc ▸ hentry
  · rw [get?_overlay_of_not_mem ha, get?_empty] at hc
    cases hc

/-- A sheet made from a text is an empty one that is large enough, with the cells of the text. -/
theorem ofCsv_eq_ok_iff {text id name : String} {minRows minCols : Nat} :
    Sheet.ofCsv text id name minRows minCols = .ok s ↔
      ∃ cs, Csv.cells text 0 0 = .ok cs ∧
        s = (empty id name (max (Csv.rowsNeeded cs) minRows)
          (max (Csv.colsNeeded cs) minCols)).overlay cs := by
  unfold Sheet.ofCsv
  cases Csv.cells text 0 0 with
  | error err => simp [bind, Except.bind]
  | ok cs =>
    constructor
    · intro h
      exact ⟨cs, rfl, (Except.ok.inj h).symm⟩
    · rintro ⟨_, ⟨⟩, rfl⟩
      rfl

theorem contains_grownFor {entry : Address × Cell} (h : entry ∈ cs) :
    (s.grownFor cs).contains entry.1 = true := by
  have hrow := Csv.rowsNeeded_le_iff.mp (Nat.le_refl _) entry h
  have hcol := Csv.colsNeeded_le_iff.mp (Nat.le_refl _) entry h
  exact contains_iff.mpr ⟨Nat.lt_of_lt_of_le hrow (Nat.le_max_right _ _),
    Nat.lt_of_lt_of_le hcol (Nat.le_max_right _ _)⟩

theorem holds_of_reads {b : Address} (h : s.Reads a b) : ∃ f, s.Holds a f := by
  obtain ⟨f, hf, _⟩ := reads_iff.mp h
  exact ⟨f, hf⟩

/-- What `x` reads in a sheet that has been loaded and in which some cells have been written since:
what the cell written there depends on; where none or only text that cannot be read was written,
what the sheet was linked to when it was loaded. -/
def ReadsAmid (s : Sheet) (written : List (Address × Cell)) (x y : Address) : Prop :=
  (∃ c, (x, c) ∈ written ∧ y ∈ s.dependencies c) ∨
    (∀ c, (x, c) ∈ written → ∃ source, c = .formula source none) ∧ (Graph.ofSheet s).Reads x y

/-- None of the cells closes a loop when it is written, in the order of the list. -/
def Acceptable (s : Sheet) (cs : List (Address × Cell)) : Prop :=
  ∀ written entry, written ++ [entry] <+: cs →
    ¬ TransGen (s.ReadsAmid (written ++ [entry])) entry.1 entry.1

end Sheet

namespace Document

variable {d e : Document} {s : Sheet} {policy : Policy} {cs : List (Address × Cell)} {a : Address}
  {c : Cell}

/-- The cells stand in place in the document, and its graph knows of them. -/
structure Overlaid (e : Document) (s : Sheet) (written : List (Address × Cell)) : Prop where
  sheet : e.sheet = s.overlay written
  links : ∀ x y, e.graph.Reads x y ↔ s.ReadsAmid written x y
  sound : e.graph.Sound

theorem overlaid_load : (load s policy).Overlaid s [] := by
  refine ⟨rfl, fun x y => ?_, Graph.sound_ofSheet s⟩
  simp [Sheet.ReadsAmid, load]

/-- What is read behind one more readable cell, at a place that was not written before. -/
theorem readsAmid_concat (ha : a ∉ cs.map (·.1)) (hread : ∀ source, c ≠ .formula source none)
    {x y : Address} :
    s.ReadsAmid (cs ++ [(a, c)]) x y ↔
      (x ≠ a ∧ s.ReadsAmid cs x y) ∨ (x = a ∧ y ∈ s.dependencies c) := by
  have hmem : ∀ c', (x, c') ∈ cs ++ [(a, c)] ↔ (x, c') ∈ cs ∨ x = a ∧ c' = c := by
    intro c'
    rw [List.mem_append, List.mem_singleton, Prod.mk.injEq]
  simp only [Sheet.ReadsAmid, hmem]
  by_cases hx : x = a
  · subst hx
    have hnone : ∀ c', (x, c') ∉ cs := fun c' h => ha (List.mem_map_of_mem h)
    simp [hnone, hread]
  · simp [hx]

theorem readsAmid_concat_unread (ha : a ∉ cs.map (·.1)) {source : String} {x y : Address} :
    s.ReadsAmid (cs ++ [(a, .formula source none)]) x y ↔ s.ReadsAmid cs x y := by
  have hmem : ∀ c', (x, c') ∈ cs ++ [(a, Cell.formula source none)] ↔
      (x, c') ∈ cs ∨ x = a ∧ c' = .formula source none := by
    intro c'
    rw [List.mem_append, List.mem_singleton, Prod.mk.injEq]
  have hdeps : s.dependencies (.formula source none) = [] := rfl
  simp only [Sheet.ReadsAmid, hmem]
  by_cases hx : x = a
  · subst hx
    have hnone : ∀ c', (x, c') ∉ cs := fun c' h => ha (List.mem_map_of_mem h)
    simp [hnone, hdeps]
  · simp [hx]

/-- A cell joins those that stand in place, or it closes a loop with them and something else is
stored. -/
theorem Overlaid.store (h : e.Overlaid s cs) (ha : a ∉ cs.map (·.1)) :
    (¬ TransGen (s.ReadsAmid (cs ++ [(a, c)])) a a ∧
        (e.store a c).1.Overlaid s (cs ++ [(a, c)])) ∨
      (TransGen (s.ReadsAmid (cs ++ [(a, c)])) a a ∧
        (e.store a c).1.sheet.get? a ≠ some c) := by
  have hdeps : e.sheet.dependencies c = s.dependencies c := by
    unfold Sheet.dependencies
    rw [h.sheet, Sheet.overlay_rows, Sheet.overlay_cols]
  have hsound : (e.store a c).1.graph.Sound := h.sound.store a c
  have hstored := stored_store e a c
  generalize e.store a c = result at hstored hsound
  cases hstored with
  | @unread source =>
    have hlinks : ∀ x y, e.graph.Reads x y ↔
        s.ReadsAmid (cs ++ [(a, .formula source none)]) x y :=
      fun x y => (h.links x y).trans (readsAmid_concat_unread ha).symm
    refine Or.inl ⟨fun hloop => ?_, ?_, hlinks, hsound⟩
    · exact hsound.acyclic a (TransGen.mono (fun x y => (hlinks x y).mpr) a a hloop)
    · rw [h.sheet, Sheet.overlay_concat]
  | @rejected _ read hfirst =>
    have hmem : read ∈ s.dependencies c := hdeps ▸ List.mem_of_find?_eq_some hfirst
    have hread : ∀ source, c ≠ .formula source none := by
      rintro source rfl
      cases hmem
    have hlead : ReflTransGen (e.graph.removeOutgoing a).Reads read a :=
      Graph.closesLoop_iff.mp (List.find?_some hfirst)
    have hold : ∀ x y, (e.graph.removeOutgoing a).Reads x y → s.ReadsAmid (cs ++ [(a, c)]) x y := by
      intro x y hxy
      obtain ⟨hne, hxy⟩ := Graph.reads_removeOutgoing.mp hxy
      exact (readsAmid_concat ha hread).mpr (Or.inl ⟨hne, (h.links x y).mp hxy⟩)
    refine Or.inr ⟨TransGen.head' ((readsAmid_concat ha hread).mpr (Or.inr ⟨rfl, hmem⟩))
      (ReflTransGen.mono hold read a hlead), ?_⟩
    rw [Sheet.get?_set, if_pos rfl]
    rintro heq
    cases Option.some.inj heq
    cases hmem
  | accepted hread hfree =>
    have hlinks : ∀ x y, ((e.sheet.dependencies c).foldl (fun g b => g.add a b)
        (e.graph.removeOutgoing a)).Reads x y ↔ s.ReadsAmid (cs ++ [(a, c)]) x y := by
      intro x y
      rw [Graph.reads_foldl_add, Graph.reads_removeOutgoing, h.links, hdeps,
        readsAmid_concat ha hread]
    refine Or.inl ⟨fun hloop => ?_, ?_, hlinks, hsound⟩
    · exact hsound.acyclic a (TransGen.mono (fun x y => (hlinks x y).mpr) a a hloop)
    · rw [h.sheet, Sheet.overlay_concat]

theorem storeAll_concat (hall : d.storeAll cs = .ok e) (ha : e.sheet.contains a = true) :
    d.storeAll (cs ++ [(a, c)]) = .ok (e.store a c).1 := by
  induction cs generalizing d with
  | nil =>
    cases Except.ok.inj hall
    exact checkBounds_bind.mpr ⟨ha, rfl⟩
  | cons entry cs ih =>
    obtain ⟨b, x⟩ := entry
    rw [storeAll, checkBounds_bind] at hall
    exact checkBounds_bind.mpr ⟨hall.1, ih hall.2⟩

/-- What becomes of cells that are stored one after another in a loaded sheet: they all stand in
place if each is acceptable at its turn, and else one of them does not. -/
structure Imported (e : Document) (s : Sheet) (cs : List (Address × Cell)) : Prop where
  rows : e.sheet.rows = s.rows
  cols : e.sheet.cols = s.cols
  accepted : s.Acceptable cs → e.Overlaid s cs
  displaced : ¬ s.Acceptable cs → ∃ entry ∈ cs, e.sheet.get? entry.1 ≠ some entry.2

theorem acceptable_concat : s.Acceptable (cs ++ [(a, c)]) ↔
    s.Acceptable cs ∧ ¬ TransGen (s.ReadsAmid (cs ++ [(a, c)])) a a := by
  have hsplit : ∀ written entry, written ++ [entry] <+: cs ++ [(a, c)] ↔
      written ++ [entry] <+: cs ∨ written = cs ∧ entry = (a, c) := by
    intro written entry
    rw [List.prefix_concat_iff, ← List.concat_eq_append, ← List.concat_eq_append,
      List.concat_inj, or_comm]
  simp only [Sheet.Acceptable, hsplit]
  constructor
  · intro h
    exact ⟨fun written entry hpre => h written entry (Or.inl hpre), h cs (a, c) (Or.inr ⟨rfl, rfl⟩)⟩
  · rintro ⟨hcs, hlast⟩ written entry (hpre | ⟨rfl, rfl⟩)
    · exact hcs written entry hpre
    · exact hlast

theorem imported_storeAll (policy : Policy) (hnodup : (cs.map (·.1)).Nodup)
    (hin : ∀ entry ∈ cs, s.contains entry.1 = true) :
    ∃ e, (load s policy).storeAll cs = .ok e ∧ e.Imported s cs := by
  induction cs using List.reverseRecOn with
  | nil =>
    refine ⟨load s policy, rfl, rfl, rfl, fun _ => overlaid_load, fun h => ?_⟩
    refine absurd (fun written entry hpre => ?_) h
    simp at hpre
  | append_singleton cs entry ih =>
    obtain ⟨a, c⟩ := entry
    rw [List.map_append, List.nodup_append] at hnodup
    obtain ⟨hnodup, _, hne⟩ := hnodup
    have ha : a ∉ cs.map (·.1) := fun h => hne a h a List.mem_cons_self rfl
    obtain ⟨e, hall, hrows, hcols, haccepted, hdisplaced⟩ :=
      ih hnodup fun entry h => hin entry (List.mem_append_left _ h)
    have hchange := changedAt_store e a c
    have hina : e.sheet.contains a = true := by
      rw [Sheet.contains, hrows, hcols]
      exact hin (a, c) (List.mem_append_right _ List.mem_cons_self)
    refine ⟨(e.store a c).1, storeAll_concat hall hina, hchange.rows.trans hrows,
      hchange.cols.trans hcols, fun h => ?_, fun h => ?_⟩
    · rw [acceptable_concat] at h
      rcases (haccepted h.1).store ha with ⟨_, hstored⟩ | ⟨hloop, _⟩
      · exact hstored
      · exact absurd hloop h.2
    · by_cases hcs : s.Acceptable cs
      · rcases (haccepted hcs).store ha with ⟨hfree, _⟩ | ⟨_, hother⟩
        · exact absurd (acceptable_concat.mpr ⟨hcs, hfree⟩) h
        · exact ⟨(a, c), List.mem_append_right _ List.mem_cons_self, hother⟩
      · -- A cell that is missing stays so, since no other one is written to its place.
        obtain ⟨entry, hentry, hother⟩ := hdisplaced hcs
        have hb : entry.1 ≠ a := hne entry.1 (List.mem_map_of_mem hentry) a List.mem_cons_self
        refine ⟨entry, List.mem_append_left _ hentry, ?_⟩
        rwa [hchange.cells entry.1 hb]

/-- A document that makes room for some cells loads its sheet anew in the size that they need. -/
theorem extend_eq_load (hplaces : ∀ entry ∈ cs, entry.1.row < Address.limit ∧
      entry.1.col < Address.limit)
    (hrows : d.sheet.rows ≤ Address.limit) (hcols : d.sheet.cols ≤ Address.limit) :
    (d.extendRows (Csv.rowsNeeded cs - d.sheet.rows)).extendCols
      (Csv.colsNeeded cs - d.sheet.cols) = load (d.sheet.grownFor cs) d.policy := by
  have hneeded := Csv.rowsNeeded_le_iff.mpr fun entry h => (hplaces entry h).1
  have hneeded' := Csv.colsNeeded_le_iff.mpr fun entry h => (hplaces entry h).2
  have hgrown : (d.sheet.extendRows (Csv.rowsNeeded cs - d.sheet.rows)).extendCols
      (Csv.colsNeeded cs - d.sheet.cols) = d.sheet.grownFor cs := by
    simp only [Sheet.extendRows, Sheet.extendCols, Sheet.grownFor, Sheet.mk.injEq, true_and, and_true]
    omega
  rw [← hgrown]
  rfl

theorem importCsv_of_storeAll {text : String} {col row : Nat}
    (hcs : Csv.cells text col row = .ok cs)
    (hplaces : ∀ entry ∈ cs, entry.1.row < Address.limit ∧ entry.1.col < Address.limit)
    (hrows : d.sheet.rows ≤ Address.limit) (hcols : d.sheet.cols ≤ Address.limit)
    (hall : (load (d.sheet.grownFor cs) d.policy).storeAll cs = .ok e) :
    d.importCsv text col row = .ok (e, cs.length) := by
  rw [← extend_eq_load hplaces hrows hcols] at hall
  unfold importCsv
  rw [hcs]
  change (((d.extendRows (Csv.rowsNeeded cs - d.sheet.rows)).extendCols
    (Csv.colsNeeded cs - d.sheet.cols)).storeAll cs >>= fun e => .ok (e, cs.length)) = _
  rw [hall]
  rfl

/-- Cells that are written over no formula are acceptable if they close no loop in the end. -/
theorem acceptable_of_loopFree (hnodup : (cs.map (·.1)).Nodup)
    (hfree : ∀ a, ¬ TransGen (s.overlay cs).Reads a a)
    (hover : ∀ entry ∈ cs, ∀ f, ¬ s.Holds entry.1 f) : s.Acceptable cs := by
  intro written entry hpre hloop
  have hreads : ∀ x y, s.ReadsAmid (written ++ [entry]) x y → (s.overlay cs).Reads x y := by
    rintro x y (⟨c, hc, hy⟩ | ⟨_, hold⟩)
    · have hcell : (s.overlay cs).get? x = some c :=
        Sheet.get?_overlay_of_mem hnodup (hpre.subset hc)
      refine ⟨c, hcell, ?_⟩
      rwa [Sheet.dependencies, Sheet.overlay_rows, Sheet.overlay_cols]
    · have hold := Graph.reads_of_ofSheet hold
      have hx : x ∉ cs.map (·.1) := by
        intro hx
        obtain ⟨other, hother, rfl⟩ := List.mem_map.mp hx
        obtain ⟨f, hf⟩ := Sheet.holds_of_reads hold
        exact hover other hother f hf
      exact (Sheet.reads_congr Sheet.overlay_rows Sheet.overlay_cols
        (Sheet.get?_overlay_of_not_mem hx)).mpr hold
  exact hfree entry.1 (TransGen.mono hreads entry.1 entry.1 hloop)

/-- An import makes the sheet large enough and writes the cells of the text one after another.
Then each of them stands in place if and only if none closes a loop at its turn, with the cells
written before it and what the others are linked to from before the import. -/
theorem importCsv_overlays_iff (d : Document) {text : String} {col row : Nat}
    {cs : List (Address × Cell)} (hcs : Csv.cells text col row = .ok cs)
    (hplaces : ∀ entry ∈ cs, entry.1.row < Address.limit ∧ entry.1.col < Address.limit)
    (hrows : d.sheet.rows ≤ Address.limit) (hcols : d.sheet.cols ≤ Address.limit) :
    ∃ e, d.importCsv text col row = .ok (e, cs.length) ∧
      e.sheet.rows = max d.sheet.rows (Csv.rowsNeeded cs) ∧
      e.sheet.cols = max d.sheet.cols (Csv.colsNeeded cs) ∧
      (e.sheet = (d.sheet.grownFor cs).overlay cs ↔ (d.sheet.grownFor cs).Acceptable cs) ∧
      ((∀ entry ∈ cs, ∀ f, ¬ d.sheet.Holds entry.1 f) →
        (∀ a, ¬ TransGen ((d.sheet.grownFor cs).overlay cs).Reads a a) →
        e.sheet = (d.sheet.grownFor cs).overlay cs) := by
  have hnodup : (cs.map (·.1)).Nodup := Csv.nodup_linesCells hcs
  have hin : ∀ entry ∈ cs, (d.sheet.grownFor cs).contains entry.1 = true :=
    fun entry => Sheet.contains_grownFor
  obtain ⟨e, hall, himported⟩ := imported_storeAll d.policy hnodup hin
  have hiff : e.sheet = (d.sheet.grownFor cs).overlay cs ↔ (d.sheet.grownFor cs).Acceptable cs := by
    constructor
    · intro hsheet
      by_contra hnot
      obtain ⟨⟨a, c⟩, hmem, hother⟩ := himported.displaced hnot
      rw [hsheet] at hother
      exact hother (Sheet.get?_overlay_of_mem hnodup hmem)
    · intro h
      exact (himported.accepted h).sheet
  refine ⟨e, importCsv_of_storeAll hcs hplaces hrows hcols hall, himported.rows, himported.cols,
    hiff, fun hover hfree => ?_⟩
  exact hiff.mpr (acceptable_of_loopFree hnodup hfree hover)

/-- A text is written over the value of the pair, and the formula over itself. -/
theorem importCsv_overlays_iff_pair : ∃ cs e,
    Csv.cells "x,=A1" 0 0 = .ok cs ∧ (pairSheet.grownFor cs).Acceptable cs ∧
      (load pairSheet Policy.standard).importCsv "x,=A1" 0 0 = .ok (e, 2) ∧
      e.sheet = (pairSheet.grownFor cs).overlay cs := by
  have hcs : Csv.cells "x,=A1" 0 0 = .ok [(⟨0, 0⟩, .literal (.text "x")),
      (⟨0, 1⟩, .formula "=A1" (some (.ref ⟨⟨0, 0⟩, ⟨false, false⟩⟩)))] := by
    with_unfolding_all rfl
  obtain ⟨e, himport, _, _, hiff, _⟩ := importCsv_overlays_iff (load pairSheet Policy.standard) hcs
    (by decide) (by decide) (by decide)
  refine ⟨_, e, hcs, ?_, himport, hiff.mpr ?_⟩
  all_goals
    intro written entry hpre
    refine not_loop_of_one_link (fun x y hxy => ?_) (show (⟨0, 1⟩ : Address) ≠ ⟨0, 0⟩ by decide) _
    rcases hxy with ⟨c, hc, hy⟩ | ⟨_, hold⟩
    · rcases List.mem_cons.mp (hpre.subset hc) with heq | hc
      · cases heq
        cases hy
      · cases List.mem_singleton.mp hc
        exact ⟨rfl, Sheet.eq_of_mem_dependencies_ref hy⟩
    · exact pairSheet_reads (Graph.reads_of_ofSheet hold)

theorem contains_store {b : Address} : (d.store a c).1.sheet.contains b = d.sheet.contains b := by
  have hchange := changedAt_store d a c
  rw [Sheet.contains, Sheet.contains, hchange.rows, hchange.cols]

/-- A formula in place of the value of the pair that refers to its formula. -/
def linkBack : Cell := .formula "=B1" (some (.ref ⟨⟨0, 1⟩, ⟨false, false⟩⟩))

theorem get?_store_linkBack :
    ((load pairSheet Policy.standard).store ⟨0, 0⟩ linkBack).1.sheet.get? ⟨0, 0⟩ =
      some (.error (loopFailure ⟨0, 0⟩ ⟨0, 1⟩)) := by
  have hlink : ((load pairSheet Policy.standard).graph.removeOutgoing ⟨0, 0⟩).Reads
      ⟨0, 1⟩ ⟨0, 0⟩ :=
    Graph.reads_removeOutgoing.mpr ⟨by decide,
      Graph.ofSheet_reads_of_loopFree pairSheet_loopFree ⟨_, Sheet.get?_set, by decide⟩⟩
  have hstored := stored_store (load pairSheet Policy.standard) ⟨0, 0⟩ linkBack
  rw [linkBack] at hstored ⊢
  generalize (load pairSheet Policy.standard).store _ _ = result at hstored
  cases hstored with
  | rejected hfirst =>
    obtain rfl := Sheet.eq_of_mem_dependencies_ref (List.mem_of_find?_eq_some hfirst)
    exact Sheet.get?_set.trans (if_pos rfl)
  | accepted _ hfree => exact absurd (.single hlink) (hfree ⟨0, 1⟩ (by decide))

/-- With a text in place of the formula of the pair the one that refers back is in no loop. -/
theorem not_loop_of_linkBack (a : Address) :
    ¬ TransGen ((pairSheet.set ⟨0, 0⟩ linkBack).set ⟨0, 1⟩ (.literal (.text "x"))).Reads a a := by
  refine not_loop_of_one_link (fun x y hxy => ?_) (show (⟨0, 0⟩ : Address) ≠ ⟨0, 1⟩ by decide) a
  obtain ⟨c, hc, hy⟩ := hxy
  rw [Sheet.get?_set, Sheet.get?_set] at hc
  split at hc
  · cases Option.some.inj hc
    cases hy
  · split at hc
    next hx =>
      cases Option.some.inj hc
      exact ⟨hx.symm, Sheet.eq_of_mem_dependencies_ref hy⟩
    next hsecond hfirst =>
      rcases pairSheet_get? hc with ⟨rfl, _⟩ | ⟨rfl, _⟩
      · exact absurd rfl hsecond
      · exact absurd rfl hfirst

/-- The formula that comes first would close a loop with the one that the text after it replaces.
It is rejected, though no loop is left in the end. -/
theorem import_rejects_without_loop : ∃ cs e,
    Csv.cells "=B1,x" 0 0 = .ok cs ∧
      (∀ a, ¬ TransGen ((pairSheet.grownFor cs).overlay cs).Reads a a) ∧
      (load pairSheet Policy.standard).importCsv "=B1,x" 0 0 = .ok (e, 2) ∧
      e.sheet.get? ⟨0, 0⟩ = some (.error (loopFailure ⟨0, 0⟩ ⟨0, 1⟩)) ∧
      ((pairSheet.grownFor cs).overlay cs).get? ⟨0, 0⟩ = some linkBack := by
  have hcs : Csv.cells "=B1,x" 0 0 = .ok [(⟨0, 0⟩, linkBack), (⟨0, 1⟩, .literal (.text "x"))] := by
    with_unfolding_all rfl
  have hsecond := changedAt_store ((load pairSheet Policy.standard).store ⟨0, 0⟩ linkBack).1
    ⟨0, 1⟩ (.literal (.text "x"))
  refine ⟨_, _, hcs, not_loop_of_linkBack, importCsv_of_storeAll hcs (by decide) (by decide)
    (by decide) (checkBounds_bind.mpr ⟨rfl, checkBounds_bind.mpr ⟨contains_store, rfl⟩⟩), ?_, ?_⟩
  · exact (hsecond.cells ⟨0, 0⟩ (by decide)).trans get?_store_linkBack
  · exact (Sheet.get?_set_of_ne (by decide)).trans (Sheet.get?_set.trans (if_pos rfl))

end Document

end Recalc
