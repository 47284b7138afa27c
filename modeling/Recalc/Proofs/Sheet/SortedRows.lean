import Recalc.Proofs.Sheet.KeyOrder
import Recalc.Proofs.Sheet.MoveRows

namespace Recalc

section Stable

variable {α : Type} {le : α → α → Bool} {r : α → α → Prop} {l : List α}

/-- A merge sort puts in order, and keeps the order `r` of what is level. -/
theorem pairwise_mergeSort_stable (htrans : ∀ a b c, le a b → le b c → le a c)
    (htotal : ∀ a b, le a b || le b a) (h : l.Pairwise r) :
    (l.mergeSort le).Pairwise fun a b => le a b ∧ (le b a → r a b) := by
  induction l with
  | nil => simp
  | cons a l ih =>
    obtain ⟨front, back, hsort, hrest, hfront⟩ := List.mergeSort_cons htrans htotal a l
    obtain ⟨ha, hl⟩ := List.pairwise_cons.mp h
    have hordered := List.pairwise_mergeSort htrans htotal (a :: l)
    have hlevel := ih hl
    have hmem : ∀ b ∈ back, b ∈ l := fun b hb =>
      List.mem_mergeSort.mp (hrest ▸ List.mem_append_right front hb)
    rw [hsort, List.pairwise_append] at hordered
    rw [hrest, List.pairwise_append] at hlevel
    obtain ⟨hlevel_front, hlevel_back, hlevel_between⟩ := hlevel
    -- What stands in front of `a` now is strictly before it; of the rest nothing is.
    have hbehind : ∀ b ∈ back, le a b ∧ (le b a → r a b) := fun b hb =>
      ⟨(List.pairwise_cons.mp hordered.2.1).1 b hb, fun _ => ha b (hmem b hb)⟩
    have hbefore : ∀ b ∈ front, le b a ∧ (le a b → r b a) := by
      intro b hb
      have hnot : le a b = false := by simpa using hfront b hb
      refine ⟨by simpa [hnot] using htotal a b, fun hab => ?_⟩
      rw [hnot] at hab
      cases hab
    rw [hsort, List.pairwise_append]
    refine ⟨hlevel_front, List.pairwise_cons.mpr ⟨hbehind, hlevel_back⟩, fun b hb c hc => ?_⟩
    rcases List.mem_cons.mp hc with rfl | hc
    · exact hbefore b hb
    · exact hlevel_between b hb c hc

/-- The order needs to be transitive on the list only. -/
theorem pairwise_mergeSort_stable_of_mem
    (htrans : ∀ a ∈ l, ∀ b ∈ l, ∀ c ∈ l, le a b → le b c → le a c)
    (htotal : ∀ a b, le a b || le b a) (h : l.Pairwise r) :
    (l.mergeSort le).Pairwise fun a b => le a b ∧ (le b a → r a b) := by
  have hmap : (l.attach.mergeSort fun a b => le a.1 b.1).map Subtype.val = l.mergeSort le := by
    rw [List.map_mergeSort (s := le) fun _ _ _ _ => rfl, List.attach_map_subtype_val]
  have hattach : l.attach.Pairwise fun a b => r a.1 b.1 := by
    rwa [← List.pairwise_map, List.attach_map_subtype_val]
  rw [← hmap, List.pairwise_map]
  exact pairwise_mergeSort_stable (fun a b c => htrans a.1 a.2 b.1 b.2 c.1 c.2)
    (fun a b => htotal a.1 b.1) hattach

end Stable

namespace Sheet

variable {s t : Sheet} {policy : Policy} {o : RowSort}

/-- Whether the key of row `i` does not come behind the key of row `j`. -/
def keyLE (s : Sheet) (policy : Policy) (o : RowSort) (i j : Nat) : Bool :=
  (keyOrder o.ascending (s.sortKey policy o.column i) (s.sortKey policy o.column j)).isLE

theorem sortedRows_eq (s : Sheet) (policy : Policy) (o : RowSort) : s.sortedRows policy o =
    (List.range' o.startRow (o.endRow - o.startRow + 1)).mergeSort (s.keyLE policy o) := by
  have hkeyed := List.map_mergeSort (r := s.keyLE policy o)
    (s := fun x y : Nat × Option Value => (keyOrder o.ascending x.2 y.2).isLE)
    (f := fun row => (row, s.sortKey policy o.column row))
    (l := List.range' o.startRow (o.endRow - o.startRow + 1)) fun _ _ _ _ => rfl
  rw [sortedRows, ← hkeyed, List.map_map]
  exact List.map_id _

/-- The keys of the rows to sort are ordered transitively. -/
def KeysTransitive (s : Sheet) (policy : Policy) (o : RowSort) : Prop :=
  TransitiveOn (keyOrder o.ascending) fun k =>
    ∃ row, o.startRow ≤ row ∧ row ≤ o.endRow ∧ s.sortKey policy o.column row = k

/-- Keys of which none is a number are. -/
theorem keysTransitive_of_no_numbers {keys : List (Option Value)}
    (hkeys : (List.range (o.endRow + 1)).map (s.sortKey policy o.column) = keys)
    (hnumber : ∀ x, some (.number x) ∉ keys) : s.KeysTransitive policy o := by
  have htexts : TransitiveOn Value.order fun v => ¬ v.IsNumber :=
    Value.transitiveOn_order (fun x hx => absurd ⟨x, rfl⟩ hx)
      fun _ x _ _ hx => absurd ⟨x, rfl⟩ hx
  have hkey : ∀ row ≤ o.endRow, ∀ v, s.sortKey policy o.column row = some v → ¬ v.IsNumber := by
    rintro row hrow v hv ⟨x, rfl⟩
    refine hnumber x ?_
    rw [← hkeys, ← hv]
    exact List.mem_map_of_mem (List.mem_range.mpr (Nat.lt_succ_of_le hrow))
  rintro k l m ⟨i, -, hi, rfl⟩ ⟨j, -, hj, rfl⟩ ⟨n, -, hn, rfl⟩
  exact transitiveOn_keyOrder htexts o.ascending _ _ _ (hkey i hi) (hkey j hj) (hkey n hn)

/-- The rows of a span have been moved as wholes into the order that the list gives, and nothing
else has changed. -/
structure RowsMoved (o : RowSort) (s t : Sheet) (rows : List Nat) : Prop where
  perm : rows.Perm (List.range' o.startRow (o.endRow - o.startRow + 1))
  moved : ∀ i row, rows[i]? = some row → ∀ col, t.get? ⟨o.startRow + i, col⟩ = s.get? ⟨row, col⟩
  outside : ∀ a : Address, a.row < o.startRow ∨ o.endRow < a.row → t.get? a = s.get? a
  size : t.rows = s.rows ∧ t.cols = s.cols
  name : t.id = s.id ∧ t.name = s.name

/-- There is nothing to sort a row by: its key cell fails or is empty. -/
def Keyless (s : Sheet) (policy : Policy) (column row : Nat) : Prop :=
  ∀ v, (s.evaluateCell policy ⟨row, column⟩ false).outcome = .ok v → v = .null

theorem sortKey_eq_none_iff {column row : Nat} :
    s.sortKey policy column row = none ↔ s.Keyless policy column row := by
  unfold sortKey Keyless
  split
  next h => simp [h]
  next v hnull h =>
    simp only [h, reduceCtorEq, Except.ok.injEq, forall_eq', false_iff]
    exact hnull
  next f h => simp [h]

/-- Rows stand in the order of their keys, and where keys are level as they stood before. -/
structure RowsOrdered (s : Sheet) (policy : Policy) (o : RowSort) (rows : List Nat) : Prop where
  ordered : rows.Pairwise fun i j => s.keyLE policy o i j
  keylessLast : rows.Pairwise fun i j =>
    s.Keyless policy o.column i → s.Keyless policy o.column j
  stable : rows.Pairwise fun i j =>
    keyOrder o.ascending (s.sortKey policy o.column i) (s.sortKey policy o.column j) = .eq → i < j

theorem rowsMoved_of_sort (h : s.sort policy o = .ok t) :
    RowsMoved o s t (s.sortedRows policy o) := by
  obtain ⟨_, _, _, ht⟩ := sort_eq_ok_iff.mp h
  constructor
  case perm => exact perm_sortedRows s policy o
  case moved => exact fun i row hrow => get?_of_sort_getElem? h hrow
  case outside => exact fun a ha => get?_of_sort_of_outside h ha
  case size => rw [ht]; exact ⟨rfl, rfl⟩
  case name => rw [ht]; exact ⟨rfl, rfl⟩

theorem rowsOrdered_sortedRows (hspan : o.startRow ≤ o.endRow) (h : s.KeysTransitive policy o) :
    s.RowsOrdered policy o (s.sortedRows policy o) := by
  have hkey : ∀ row ∈ List.range' o.startRow (o.endRow - o.startRow + 1),
      ∃ row', o.startRow ≤ row' ∧ row' ≤ o.endRow ∧
        s.sortKey policy o.column row' = s.sortKey policy o.column row := by
    intro row hrow
    rw [List.mem_range'_1] at hrow
    exact ⟨row, by omega, by omega, rfl⟩
  have hsorted : (s.sortedRows policy o).Pairwise fun i j =>
      s.keyLE policy o i j ∧ (s.keyLE policy o j i → i < j) := by
    rw [sortedRows_eq]
    exact pairwise_mergeSort_stable_of_mem
      (fun i hi j hj n hn => h _ _ _ (hkey i hi) (hkey j hj) (hkey n hn))
      (fun i j => keyOrder_total o.ascending _ _) List.pairwise_lt_range'
  constructor
  case ordered => exact hsorted.imp And.left
  case keylessLast =>
    refine hsorted.imp fun {i j} hij hi => ?_
    rw [← sortKey_eq_none_iff] at hi ⊢
    have hle := hij.1
    rw [keyLE, hi] at hle
    cases hj : s.sortKey policy o.column j with
    | none => rfl
    | some v =>
      rw [hj] at hle
      cases hle
  case stable =>
    refine hsorted.imp fun {i j} hij hlevel => hij.2 ?_
    rw [keyLE, keyOrder_swap, hlevel]
    rfl

theorem sort_eq_error_iff {e : EditError} : s.sort policy o = .error e ↔
    (o.endRow < o.startRow ∨ s.rows ≤ o.endRow ∨ s.cols ≤ o.column) ∧
      e = .invalidSort o.startRow o.endRow o.column s.rows s.cols := by
  unfold sort
  split
  next hbad =>
    rw [Except.error.injEq, eq_comm]
    exact (and_iff_right hbad).symm
  next hgood => simp [hgood]

/-- A sort is refused exactly if its rows are in no order, or they or its column are not in the
sheet. Otherwise it moves whole rows within their span and changes nothing else; and if the keys
are ordered transitively, the rows then stand in the order of their keys, those without a key at
the end, and those with level keys as before. -/
theorem sort_refuses_or_orders (s : Sheet) (policy : Policy) (o : RowSort) :
    (∀ e, s.sort policy o = .error e ↔
      (o.endRow < o.startRow ∨ s.rows ≤ o.endRow ∨ s.cols ≤ o.column) ∧
        e = .invalidSort o.startRow o.endRow o.column s.rows s.cols) ∧
    (o.startRow ≤ o.endRow → o.endRow < s.rows → o.column < s.cols →
      ∃ t, s.sort policy o = .ok t ∧ RowsMoved o s t (s.sortedRows policy o) ∧
        (s.KeysTransitive policy o → s.RowsOrdered policy o (s.sortedRows policy o))) := by
  refine ⟨fun e => sort_eq_error_iff, fun hspan hrows hcolumn => ?_⟩
  obtain ⟨t, hsort⟩ : ∃ t, s.sort policy o = .ok t :=
    ⟨_, sort_eq_ok_iff.mpr ⟨hspan, hrows, hcolumn, rfl⟩⟩
  exact ⟨t, hsort, rowsMoved_of_sort hsort, rowsOrdered_sortedRows hspan⟩

/-- A failure, a row without a name, and three names, two of which differ in their capitals only. -/
def roster : Sheet :=
  ((((Sheet.empty "s" "Sheet" 6 2).set ⟨0, 0⟩ (.error ⟨.div0, "Division by zero"⟩)).set ⟨2, 0⟩
    (.literal (.text "B"))).set ⟨3, 0⟩ (.formula "=\"a\"" (some (.text "a")))).set ⟨4, 0⟩
      (.literal (.text "b"))

theorem roster_keysTransitive : roster.KeysTransitive Policy.standard ⟨0, 4, 0, false⟩ := by
  have hkeys : (List.range 5).map (roster.sortKey Policy.standard 0) =
      [none, none, some (.text "B"), some (.text "a"), some (.text "b")] := rfl
  exact keysTransitive_of_no_numbers hkeys (by simp)

/-- In descending order the names that are level stay as they were, and what has no name is last. -/
theorem sort_refuses_or_orders_roster :
    ∃ t, roster.sort Policy.standard ⟨0, 4, 0, false⟩ = .ok t ∧
      RowsMoved ⟨0, 4, 0, false⟩ roster t [2, 4, 3, 0, 1] ∧
      roster.RowsOrdered Policy.standard ⟨0, 4, 0, false⟩ [2, 4, 3, 0, 1] := by
  have hrows : roster.sortedRows Policy.standard ⟨0, 4, 0, false⟩ = [2, 4, 3, 0, 1] := by
    let le := roster.keyLE Policy.standard ⟨0, 4, 0, false⟩
    obtain ⟨h01, h34, h02, h24, h04, h03⟩ : le 0 1 = true ∧ le 3 4 = false ∧ le 0 2 = false ∧
      le 2 4 = true ∧ le 0 4 = false ∧ le 0 3 = false := by decide +kernel
    rw [sortedRows_eq]
    show [0, 1, 2, 3, 4].mergeSort le = [2, 4, 3, 0, 1]
    simp [List.mergeSort, List.MergeSort.Internal.splitInTwo, h01, h34, h02, h24, h04, h03]
  obtain ⟨-, hsorts⟩ := sort_refuses_or_orders roster Policy.standard ⟨0, 4, 0, false⟩
  obtain ⟨t, hsort, hmoved, hordered⟩ := hsorts (by decide) (by decide) (by decide)
  rw [hrows] at hmoved hordered
  exact ⟨t, hsort, hmoved, hordered roster_keysTransitive⟩

end Sheet

end Recalc
