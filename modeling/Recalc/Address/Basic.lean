import Std.Data.ExtTreeMap
import Std.Data.ExtTreeSet

namespace Recalc

/-- The place of a cell: its row and column, counted from zero. -/
structure Address where
  row : Nat
  col : Nat
deriving DecidableEq, Repr, Inhabited

namespace Address

def order (a b : Address) : Ordering :=
  (compare a.row b.row).then (compare a.col b.col)

instance : Ord Address := ⟨order⟩

instance : Std.TransOrd Address :=
  inferInstanceAs (Std.TransCmp (compareLex (compareOn Address.row) (compareOn Address.col)))

instance : Std.LawfulEqOrd Address where
  eq_of_compare {a b} h := by
    obtain ⟨hr, hc⟩ := Ordering.then_eq_eq.mp (show order a b = .eq from h)
    cases a
    cases b
    simp_all

/-- Every row and every column index is below this bound, one less than the 64th power of two. -/
def limit : Nat := 18446744073709551615

/-- Whether the place lies in the first `rows` rows and the first `cols` columns. -/
def within (a : Address) (rows cols : Nat) : Bool :=
  a.row < rows && a.col < cols

end Address

abbrev AddressSet := Std.ExtTreeSet Address

abbrev AddressMap (β : Type) := Std.ExtTreeMap Address β

namespace AddressMap

variable {β : Type}

def outside (m : AddressMap β) (seen : AddressSet) : List Address := m.keys.filter (· ∉ seen)

theorem outside_insert_lt {m : AddressMap β} {seen : AddressSet} {a : Address} (hm : a ∈ m)
    (hs : a ∉ seen) :
    (outside m (seen.insert a)).length < (outside m seen).length := by
  have hsub : outside m (seen.insert a) = (outside m seen).filter (· ≠ a) := by
    simp only [outside, List.filter_filter]
    refine List.filter_congr fun b _ => ?_
    simp only [Std.ExtTreeSet.mem_insert, Std.compare_eq_iff_eq, ← Bool.decide_and]
    refine decide_eq_decide.mpr ?_
    grind
  have hmem : a ∈ outside m seen := by
    simp only [outside, List.mem_filter, decide_eq_true_eq]
    exact ⟨Std.ExtTreeMap.mem_keys.mpr hm, hs⟩
  rw [hsub]
  exact List.length_filter_lt_length_iff_exists.mpr ⟨a, hmem, by simp⟩

theorem outside_insert_eq {m : AddressMap β} {seen : AddressSet} {a : Address} (hm : a ∉ m) :
    outside m (seen.insert a) = outside m seen := by
  refine List.filter_congr fun b hb => ?_
  have hne : a ≠ b := by
    rintro rfl
    exact hm (Std.ExtTreeMap.mem_keys.mp hb)
  simp [Std.ExtTreeSet.mem_insert, hne]

end AddressMap

inductive Direction
  | up
  | down
  | left
  | right
deriving DecidableEq, Repr

/-- The next place in a direction, where the sheet has one. -/
def Address.neighbor (a : Address) (d : Direction) (rows cols : Nat) : Option Address :=
  let next : Option Address := match d with
    | .up => if a.row = 0 then none else some ⟨a.row - 1, a.col⟩
    | .down => some ⟨a.row + 1, a.col⟩
    | .left => if a.col = 0 then none else some ⟨a.row, a.col - 1⟩
    | .right => some ⟨a.row, a.col + 1⟩
  next.filter (·.within rows cols)

end Recalc
