import Recalc.Proofs.Document.Import
import Recalc.Proofs.Sheet.MoveRows

namespace Recalc

namespace Rect

variable {r : Rect} {a : Address} {as : List Address}

theorem contains_cover : (r.cover a).Contains a := by
  simp only [Contains, cover]
  omega

theorem Contains.cover {b : Address} (h : r.Contains b) : (r.cover a).Contains b := by
  simp only [Contains, Rect.cover] at h ⊢
  omega

theorem contains_foldl_cover {b : Address} (h : r.Contains b ∨ b ∈ as) :
    (as.foldl cover r).Contains b := by
  induction as generalizing r with
  | nil => simpa using h
  | cons a as ih =>
    refine ih ?_
    rcases h with h | h
    · exact Or.inl h.cover
    · rcases List.mem_cons.mp h with rfl | h
      · exact Or.inl contains_cover
      · exact Or.inr h

/-- The last row of a rectangle that covers some cells is the row of one of them. -/
theorem bottom_foldl_cover : (as.foldl cover r).bottom = r.bottom ∨
    ∃ a ∈ as, a.row = (as.foldl cover r).bottom := by
  induction as generalizing r with
  | nil => exact Or.inl rfl
  | cons a as ih =>
    rw [List.foldl_cons]
    rcases ih (r := r.cover a) with hcover | ⟨b, hb, hrow⟩
    · rcases Nat.le_total a.row r.bottom with hle | hle
      · exact Or.inl (hcover.trans (Nat.max_eq_left hle))
      · exact Or.inr ⟨a, List.mem_cons_self, (hcover.trans (Nat.max_eq_right hle)).symm⟩
    · exact Or.inr ⟨b, List.mem_cons_of_mem _ hb, hrow⟩

end Rect

namespace Sheet

variable {s t : Sheet} {a : Address} {c : Cell}

theorem mem_keys : a ∈ s.cells.keys ↔ ∃ c, s.get? a = some c := by
  rw [Std.ExtTreeMap.mem_keys, Std.ExtTreeMap.mem_iff_isSome_getElem?, Option.isSome_iff_exists]
  rfl

theorem bounds?_eq_none (h : s.bounds? = none) : s.get? a = none := by
  rw [Option.eq_none_iff_forall_ne_some]
  intro c hc
  have hmem : a ∈ s.cells.keys := mem_keys.mpr ⟨c, hc⟩
  unfold bounds? at h
  split at h
  next hnil =>
    rw [hnil] at hmem
    cases hmem
  next => cases h

/-- All occupied cells lie in the bounds, one of them in the last row. -/
theorem bounds?_eq_some {b : Rect} (h : s.bounds? = some b) :
    (∀ a c, s.get? a = some c → b.Contains a) ∧ ∃ a c, s.get? a = some c ∧ a.row = b.bottom := by
  unfold bounds? at h
  split at h
  next => cases h
  next first rest hkeys =>
    cases Option.some.inj h
    have hmem : ∀ a, (∃ c, s.get? a = some c) ↔ a = first ∨ a ∈ rest := by
      intro a
      rw [← mem_keys, hkeys, List.mem_cons]
    have hfirst : (Rect.spanning first first).Contains first := by simp [Rect.Contains, Rect.spanning]
    constructor
    · intro a c hc
      refine Rect.contains_foldl_cover ?_
      rcases (hmem a).mp ⟨c, hc⟩ with rfl | ha
      · exact Or.inl hfirst
      · exact Or.inr ha
    · rcases @Rect.bottom_foldl_cover (Rect.spanning first first) rest with
        hbottom | ⟨a, ha, hrow⟩
      · obtain ⟨c, hc⟩ := (hmem first).mpr (Or.inl rfl)
        exact ⟨first, c, hc, by rw [hbottom]; simp [Rect.spanning]⟩
      · obtain ⟨c, hc⟩ := (hmem a).mpr (Or.inr ha)
        exact ⟨a, c, hc, hrow⟩

/-- The first row is a header if its first cell is occupied. -/
def IsHeader (s : Sheet) (row : Nat) : Prop := row = 0 ∧ ∃ c, s.get? ⟨0, 0⟩ = some c

/-- No cell is stored outside of the sheet, and its rows and columns can be counted. -/
structure KeptIn (s : Sheet) : Prop where
  inside : ∀ a c, s.get? a = some c → s.contains a = true
  rows_le : s.rows ≤ Address.limit
  cols_le : s.cols ≤ Address.limit

theorem KeptIn.extendRows (h : s.KeptIn) (count : Nat) : (s.extendRows count).KeptIn := by
  refine ⟨fun a c hc => ?_, Nat.min_le_right _ _, h.cols_le⟩
  have hin := contains_iff.mp (h.inside a c hc)
  have hrows := h.rows_le
  rw [contains_iff]
  simp only [Sheet.extendRows]
  omega

theorem KeptIn.extendCols (h : s.KeptIn) (count : Nat) : (s.extendCols count).KeptIn := by
  refine ⟨fun a c hc => ?_, h.rows_le, Nat.min_le_right _ _⟩
  have hin := contains_iff.mp (h.inside a c hc)
  have hcols := h.cols_le
  rw [contains_iff]
  simp only [Sheet.extendCols]
  omega

/-- The rows that a sort moves are rows of the sheet. -/
theorem KeptIn.sort (h : s.KeptIn) {policy : Policy} {o : RowSort} (hsort : s.sort policy o = .ok t) :
    t.KeptIn := by
  obtain ⟨hspan, hrows, hcolumn, ht⟩ := sort_eq_ok_iff.mp hsort
  refine ⟨fun b c hc => ?_, by rw [ht]; exact h.rows_le, by rw [ht]; exact h.cols_le⟩
  obtain ⟨a, rfl, hstored⟩ := (get?_of_sort hsort).mp hc
  have hin := contains_iff.mp (h.inside a c hstored)
  rw [ht, contains_iff]
  refine ⟨?_, hin.2⟩
  change newRow o.startRow (s.sortedRows policy o) a.row < s.rows
  by_cases hmem : a.row ∈ s.sortedRows policy o
  · have hnew := newRow_mem (perm_sortedRows s policy o) hmem
    rw [mem_sortedRows hspan] at hnew
    omega
  · rw [newRow_of_not_mem hmem]
    exact hin.1

theorem KeptIn.change {d e : Document} {a : Address} (h : d.sheet.KeptIn)
    (hchange : d.ChangedAt a e) (hin : d.sheet.contains a = true) : e.sheet.KeptIn := by
  have hcontains : ∀ b, e.sheet.contains b = d.sheet.contains b := by
    intro b
    rw [contains, contains, hchange.rows, hchange.cols]
  refine ⟨fun b c hc => ?_, hchange.rows ▸ h.rows_le, hchange.cols ▸ h.cols_le⟩
  rw [hcontains]
  by_cases hb : b = a
  · rwa [hb]
  · exact h.inside b c ((hchange.cells b hb).symm.trans hc)

/-- A sheet to start with: an empty one, or one made from a text. -/
inductive Fresh : Sheet → Prop
  | empty {id name : String} {rows cols : Nat} (hrows : rows ≤ Address.limit)
      (hcols : cols ≤ Address.limit) : Fresh (.empty id name rows cols)
  | ofCsv {text id name : String} {minRows minCols : Nat} {s : Sheet}
      (h : Sheet.ofCsv text id name minRows minCols = .ok s) (hrows : s.rows ≤ Address.limit)
      (hcols : s.cols ≤ Address.limit) : Fresh s

theorem Fresh.keptIn (h : s.Fresh) : s.KeptIn := by
  cases h with
  | empty hrows hcols =>
    refine ⟨fun a c hc => ?_, hrows, hcols⟩
    rw [get?_empty] at hc
    cases hc
  | ofCsv h hrows hcols =>
    refine ⟨fun a c hc => ?_, hrows, hcols⟩
    obtain ⟨cs, hcs, rfl⟩ := ofCsv_eq_ok_iff.mp h
    have hmem : (a, c) ∈ cs := (get?_overlay_empty (Csv.nodup_linesCells hcs)).mp hc
    have hrow := Csv.rowsNeeded_le_iff.mp (Nat.le_refl _) (a, c) hmem
    have hcol := Csv.colsNeeded_le_iff.mp (Nat.le_refl _) (a, c) hmem
    rw [contains_iff, overlay_rows, overlay_cols]
    exact ⟨Nat.lt_of_lt_of_le hrow (Nat.le_max_left _ _),
      Nat.lt_of_lt_of_le hcol (Nat.le_max_left _ _)⟩

end Sheet

namespace SortRequest

variable {r : SortRequest} {s : Sheet} {o : RowSort}

/-- The row with which a sort begins if the cells of the sheet have these bounds. -/
def firstRow (s : Sheet) (b : Rect) : Nat :=
  if b.top = 0 ∧ (s.get? ⟨0, 0⟩).isSome then 1 else b.top

theorem resolve_of_no_rows (hrows : r.rows = none) :
    r.resolve s = s.bounds?.bind fun b =>
      if b.bottom < firstRow s b then none
      else some ⟨firstRow s b, b.bottom, r.column, r.ascending⟩ := by
  unfold resolve
  rw [hrows]
  cases s.bounds? with
  | none => rfl
  | some b => rfl

/-- It begins with the first occupied row that is no header. -/
theorem firstRow_le {b : Rect} (hb : s.bounds? = some b) {a : Address} {c : Cell}
    (hc : s.get? a = some c) (hheader : ¬ s.IsHeader a.row) : firstRow s b ≤ a.row := by
  have htop := ((Sheet.bounds?_eq_some hb).1 a c hc).1
  unfold firstRow
  split
  next h =>
    have hrow : a.row ≠ 0 := fun hrow => hheader ⟨hrow, Option.isSome_iff_exists.mp h.2⟩
    omega
  next => exact htop

theorem firstRow_of_header {b : Rect} (hb : s.bounds? = some b) {row : Nat}
    (hheader : s.IsHeader row) : row < firstRow s b := by
  obtain ⟨rfl, c, hc⟩ := hheader
  have htop : b.top ≤ 0 := ((Sheet.bounds?_eq_some hb).1 ⟨0, 0⟩ c hc).1
  rw [firstRow, if_pos ⟨by omega, Option.isSome_iff_exists.mpr ⟨c, hc⟩⟩]
  exact Nat.one_pos

theorem header_of_resolve_eq_none (hrows : r.rows = none) (h : r.resolve s = none) {a : Address}
    {c : Cell} (hc : s.get? a = some c) : s.IsHeader a.row := by
  rw [resolve_of_no_rows hrows] at h
  cases hb : s.bounds? with
  | none =>
    rw [Sheet.bounds?_eq_none hb] at hc
    cases hc
  | some b =>
    by_contra hheader
    have hfirst := firstRow_le hb hc hheader
    have hlast := ((Sheet.bounds?_eq_some hb).1 a c hc).2.1
    rw [hb, Option.bind_some, if_neg (by omega)] at h
    cases h

theorem of_resolve_eq_some (hrows : r.rows = none) (h : r.resolve s = some o) :
    ∃ b, s.bounds? = some b ∧ firstRow s b ≤ b.bottom ∧
      o = ⟨firstRow s b, b.bottom, r.column, r.ascending⟩ := by
  rw [resolve_of_no_rows hrows, Option.bind_eq_some_iff] at h
  obtain ⟨b, hb, h⟩ := h
  split at h
  next => cases h
  next hspan => exact ⟨b, hb, Nat.le_of_not_lt hspan, (Option.some.inj h).symm⟩

end SortRequest

namespace Document

open SortRequest

/-- A sort for which no rows are given can be carried out, if there is anything to sort. -/
structure SortsByDefault (d : Document) (r : SortRequest) : Prop where
  nothing : r.resolve d.sheet = none → ∀ a c, d.sheet.get? a = some c → d.sheet.IsHeader a.row
  columns : ∀ o, r.resolve d.sheet = some o → o.column = r.column ∧ o.ascending = r.ascending
  rows : ∀ o, r.resolve d.sheet = some o → ∀ a c, d.sheet.get? a = some c →
    ¬ d.sheet.IsHeader a.row → o.startRow ≤ a.row ∧ a.row ≤ o.endRow
  /-- The sort is not refused, and a header stays as it is. -/
  sorted : ∀ o, r.resolve d.sheet = some o → ∃ e, d.sort o = .ok e ∧
    ∀ row, d.sheet.IsHeader row → ∀ col, e.sheet.get? ⟨row, col⟩ = d.sheet.get? ⟨row, col⟩

variable {d : Document} {r : SortRequest}

theorem sortsByDefault_of_keptIn (h : d.sheet.KeptIn) (hrows : r.rows = none)
    (hcolumn : r.column < d.sheet.cols) : d.SortsByDefault r := by
  constructor
  case nothing => exact fun hnone a c hc => header_of_resolve_eq_none hrows hnone hc
  case columns =>
    intro o ho
    obtain ⟨b, _, _, rfl⟩ := of_resolve_eq_some hrows ho
    exact ⟨rfl, rfl⟩
  case rows =>
    intro o ho a c hc hheader
    obtain ⟨b, hb, _, rfl⟩ := of_resolve_eq_some hrows ho
    exact ⟨firstRow_le hb hc hheader, ((Sheet.bounds?_eq_some hb).1 a c hc).2.1⟩
  case sorted =>
    intro o ho
    obtain ⟨b, hb, hspan, rfl⟩ := of_resolve_eq_some hrows ho
    obtain ⟨a, c, hc, hlast⟩ := (Sheet.bounds?_eq_some hb).2
    have hin := Sheet.contains_iff.mp (h.inside a c hc)
    rw [hlast] at hin
    obtain ⟨t, hsort⟩ : ∃ t, d.sheet.sort d.policy
        ⟨firstRow d.sheet b, b.bottom, r.column, r.ascending⟩ = .ok t :=
      ⟨_, Sheet.sort_eq_ok_iff.mpr ⟨hspan, hin.1, hcolumn, rfl⟩⟩
    refine ⟨d.withSheet t, ?_, ?_⟩
    · unfold Document.sort
      rw [hsort]
      rfl
    · intro row hheader col
      exact Sheet.get?_of_sort_of_outside hsort (Or.inl (firstRow_of_header hb hheader))

theorem keptIn_run {s : Sheet} (h : s.KeptIn) (policy : Policy) (ops : List Operation) :
    ((load s policy).run ops).sheet.KeptIn := by
  refine run_invariant (P := fun d => d.sheet.KeptIn) ?_ ?_ ?_ ?_ ?_ h
  · exact fun d count h => h.extendRows count
  · exact fun d count h => h.extendCols count
  · exact fun d o t _ hsort h => h.sort hsort
  · exact fun d a c hin h => h.change (changedAt_store d a c) hin
  · exact fun d a hin h => h.change (changedAt_erase d a) hin

/-- Whatever is done to an empty sheet or to one made from a text, every stored cell lies inside
of it, and a sort that finds out its rows can be carried out for each of its columns. -/
theorem inside_and_sortsByDefault_run {s : Sheet} (hfresh : s.Fresh) (policy : Policy)
    (ops : List Operation) :
    (∀ a c, ((load s policy).run ops).sheet.get? a = some c →
      ((load s policy).run ops).sheet.contains a = true) ∧
    ∀ r : SortRequest, r.rows = none → r.column < ((load s policy).run ops).sheet.cols →
      ((load s policy).run ops).SortsByDefault r := by
  have h := keptIn_run hfresh.keptIn policy ops
  exact ⟨h.inside, fun r hrows hcolumn => sortsByDefault_of_keptIn h hrows hcolumn⟩

/-- Two names below a header, as a text gives them. -/
def namesSheet : Sheet := (Sheet.empty "" "" 3 1).overlay
  [(⟨0, 0⟩, .literal (.text "name")), (⟨1, 0⟩, .literal (.text "b")), (⟨2, 0⟩, .literal (.text "a"))]

/-- After a third name has been written two rows below the text, its rows are sorted and the header
is not. -/
theorem inside_and_sortsByDefault_run_names :
    namesSheet.Fresh ∧ ∃ d e, d = (load namesSheet Policy.standard).run
        [.extendRows 2, .edit (.update ⟨4, 0⟩ (.literal (.text "c")))] ∧
      SortRequest.resolve ⟨0, true, none⟩ d.sheet = some ⟨1, 4, 0, true⟩ ∧
      d.sort ⟨1, 4, 0, true⟩ = .ok e ∧ e.sheet.get? ⟨0, 0⟩ = some (.literal (.text "name")) := by
  have hcells : Csv.cells "name\nb\na" 0 0 = .ok [(⟨0, 0⟩, .literal (.text "name")),
      (⟨1, 0⟩, .literal (.text "b")), (⟨2, 0⟩, .literal (.text "a"))] := by
    with_unfolding_all rfl
  have hfresh : namesSheet.Fresh :=
    .ofCsv (Sheet.ofCsv_eq_ok_iff.mpr ⟨_, hcells, rfl⟩ : Sheet.ofCsv _ "" "" 0 0 = _) (by decide)
      (by decide)
  obtain ⟨_, hsorts⟩ := inside_and_sortsByDefault_run hfresh Policy.standard
    [.extendRows 2, .edit (.update ⟨4, 0⟩ (.literal (.text "c")))]
  have hresolve : SortRequest.resolve ⟨0, true, none⟩ ((load namesSheet Policy.standard).run
      [.extendRows 2, .edit (.update ⟨4, 0⟩ (.literal (.text "c")))]).sheet =
        some ⟨1, 4, 0, true⟩ := by
    with_unfolding_all rfl
  have hheader : ((load namesSheet Policy.standard).run
      [.extendRows 2, .edit (.update ⟨4, 0⟩ (.literal (.text "c")))]).sheet.get? ⟨0, 0⟩ =
        some (.literal (.text "name")) := by
    with_unfolding_all rfl
  obtain ⟨e, hsort, hkept⟩ := (hsorts ⟨0, true, none⟩ rfl (by decide)).sorted _ hresolve
  exact ⟨hfresh, _, e, rfl, hresolve, hsort, (hkept 0 ⟨rfl, _, hheader⟩ 0).trans hheader⟩

end Document

end Recalc
