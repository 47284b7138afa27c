import Recalc.Address.Basic

namespace Recalc

/-- For each address the addresses it is linked to. An address without links has no entry. -/
abbrev Links := AddressMap AddressSet

namespace Links

/-- The addresses that `a` is linked to. -/
def of (m : Links) (a : Address) : AddressSet := m.getD a ∅

def link (m : Links) (a b : Address) : Links := m.insert a ((m.of a).insert b)

/-- Remove one link, and the entry of `a` if it was the last. -/
def unlink (m : Links) (a b : Address) : Links :=
  let left := (m.of a).erase b
  if left.isEmpty then m.erase a else m.insert a left

def count (m : Links) : Nat := m.toList.foldl (fun n entry => n + entry.2.size) 0

/-- The addresses in `seen`, and all that can be reached over links from those that wait, without
passing through `seen`. -/
def reach (m : Links) (seen : AddressSet) : List Address → AddressSet
  | [] => seen
  | a :: waiting =>
    if _hs : a ∈ seen then reach m seen waiting
    else if _hm : a ∈ m then reach m (seen.insert a) ((m.of a).toList ++ waiting)
    else reach m (seen.insert a) waiting
termination_by waiting => ((AddressMap.outside m seen).length, waiting.length)
decreasing_by
  · exact Prod.Lex.right _ (by simp)
  · exact Prod.Lex.left _ _ (AddressMap.outside_insert_lt _hm _hs)
  · rw [AddressMap.outside_insert_eq _hm]
    exact Prod.Lex.right _ (by simp)

end Links

end Recalc
