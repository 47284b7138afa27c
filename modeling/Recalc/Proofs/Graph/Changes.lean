import Recalc.Proofs.Graph.Reads

namespace Recalc.Graph

inductive Change
  | add (reader read : Address)
  | removeOutgoing (a : Address)
  | removeAll (a : Address)

def change (g : Graph) : Change → Graph
  | .add reader read => g.add reader read
  | .removeOutgoing a => g.removeOutgoing a
  | .removeAll a => g.removeAll a

/-- What some changes, one after another, make of the empty graph. -/
def build (changes : List Change) : Graph := changes.foldl change empty

variable {g : Graph} {a x y : Address}

theorem reads_removeAll (h : g.Mirrored) :
    (g.removeAll a).Reads x y ↔ g.Reads x y ∧ x ≠ a ∧ y ≠ a := by
  have hleft : ((g.removeOutgoing a).dependents.Linked a x) ↔ (g.removeOutgoing a).Reads x a :=
    h.removeOutgoing a x a
  have hlinked : (g.removeAll a).Reads x y ↔ (g.removeOutgoing a).Reads x y ∧
      ¬ (x ∈ ((g.removeOutgoing a).dependents.of a).toList ∧ y = a) :=
    Links.linked_foldl_unlink
  rw [hlinked, Std.ExtTreeSet.mem_toList]
  change _ ∧ ¬ ((g.removeOutgoing a).dependents.Linked a x ∧ y = a) ↔ _
  rw [hleft, reads_removeOutgoing, reads_removeOutgoing]
  grind

theorem Mirrored.removeAll (h : g.Mirrored) (a : Address) : (g.removeAll a).Mirrored := by
  intro x y
  have hlinked : (g.removeAll a).dependents.Linked y x ↔
      y ≠ a ∧ (g.removeOutgoing a).dependents.Linked y x := Links.linked_erase
  rw [hlinked, h.removeOutgoing a x y, reads_removeAll h, reads_removeOutgoing]
  grind

theorem Mirrored.change (h : g.Mirrored) (c : Change) : (g.change c).Mirrored := by
  cases c with
  | add reader read => exact h.add reader read
  | removeOutgoing a => exact h.removeOutgoing a
  | removeAll a => exact h.removeAll a

theorem mirrored_foldl_change (h : g.Mirrored) (changes : List Change) :
    (changes.foldl Graph.change g).Mirrored := by
  induction changes generalizing g with
  | nil => exact h
  | cons c changes ih => exact ih (h.change c)

theorem mirrored_build (changes : List Change) : (build changes).Mirrored :=
  mirrored_foldl_change mirrored_empty changes

end Recalc.Graph
