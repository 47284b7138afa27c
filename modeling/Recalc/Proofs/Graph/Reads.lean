import Recalc.Graph.Basic
import Recalc.Proofs.Graph.Reach

namespace Recalc.Graph

open Relation

/-- `a` reads `b`, as far as the graph knows. -/
def Reads (g : Graph) (a b : Address) : Prop := g.precedents.Linked a b

/-- Both ends of the graph tell the same. -/
def Mirrored (g : Graph) : Prop := ∀ a b, g.dependents.Linked b a ↔ g.Reads a b

theorem not_reads_empty {a b : Address} : ¬ empty.Reads a b :=
  Links.linked_empty

theorem mirrored_empty : empty.Mirrored := fun _ _ =>
  iff_of_false Links.linked_empty Links.linked_empty

theorem reads_add {g : Graph} {a b x y : Address} :
    (g.add a b).Reads x y ↔ g.Reads x y ∨ (x = a ∧ y = b) :=
  Links.linked_link

theorem Mirrored.add {g : Graph} (h : g.Mirrored) (a b : Address) : (g.add a b).Mirrored := by
  intro x y
  rw [reads_add, ← h x y, and_comm]
  exact Links.linked_link

theorem reads_foldl_add {g : Graph} {a x y : Address} {reads : List Address} :
    (reads.foldl (fun g b => g.add a b) g).Reads x y ↔ g.Reads x y ∨ (x = a ∧ y ∈ reads) := by
  induction reads generalizing g with
  | nil => simp
  | cons b reads ih =>
    rw [List.foldl_cons, ih, reads_add, List.mem_cons]
    grind

theorem Mirrored.foldl_add {g : Graph} (h : g.Mirrored) (a : Address) (reads : List Address) :
    (reads.foldl (fun g b => g.add a b) g).Mirrored := by
  induction reads generalizing g with
  | nil => exact h
  | cons b reads ih => exact ih (h.add a b)

theorem reads_removeOutgoing {g : Graph} {a x y : Address} :
    (g.removeOutgoing a).Reads x y ↔ x ≠ a ∧ g.Reads x y :=
  Links.linked_erase

theorem Mirrored.removeOutgoing {g : Graph} (h : g.Mirrored) (a : Address) :
    (g.removeOutgoing a).Mirrored := by
  intro x y
  have hlinked : (g.removeOutgoing a).dependents.Linked y x ↔
      g.dependents.Linked y x ∧ ¬ (y ∈ (g.precedents.of a).toList ∧ x = a) :=
    Links.linked_foldl_unlink
  rw [hlinked, reads_removeOutgoing, h x y, Std.ExtTreeSet.mem_toList]
  -- A link from `a` itself is in the list that is gone through.
  by_cases hx : x = a
  · subst hx
    have hself : ¬ (g.Reads x y ∧ ¬ y ∈ g.precedents.of x) := fun ⟨hr, hn⟩ => hn hr
    simpa using hself
  · simp [hx]

theorem mirroredIn_iff {m n : Links} :
    mirroredIn m n = true ↔ ∀ a b, m.Linked a b → n.Linked b a := by
  simp only [mirroredIn, List.all_eq_true, decide_eq_true_eq, Prod.forall,
    Std.ExtTreeMap.mem_toList_iff_getElem?_eq_some, Std.ExtTreeSet.mem_toList]
  constructor
  · intro h a b hlink
    unfold Links.Linked Links.of at hlink
    rw [Std.ExtTreeMap.getD_eq_getD_getElem?] at hlink
    cases hs : m[a]? with
    | none => simp [hs] at hlink
    | some s => exact h a s hs b (by simpa [hs] using hlink)
  · intro h a s hs b hb
    apply h a b
    unfold Links.Linked Links.of
    rw [Std.ExtTreeMap.getD_eq_getD_getElem?, hs]
    exact hb

theorem isConsistent_iff {g : Graph} : g.isConsistent = true ↔ g.Mirrored := by
  rw [isConsistent, Bool.and_eq_true, mirroredIn_iff, mirroredIn_iff]
  exact ⟨fun h a b => ⟨h.2 b a, h.1 a b⟩,
    fun h => ⟨fun a b => (h a b).mpr, fun b a => (h a b).mp⟩⟩

/-- The loop check is reachability: a link from `a` to `b` closes a loop if `b` leads to `a`. -/
theorem closesLoop_iff {g : Graph} {a b : Address} :
    g.closesLoop a b = true ↔ ReflTransGen g.Reads b a := by
  rw [closesLoop, decide_eq_true_iff, Links.mem_reach]
  constructor
  · rintro ⟨w, hw, h⟩
    obtain rfl := List.mem_singleton.mp hw
    exact h
  · intro h
    exact ⟨b, List.mem_singleton_self b, h⟩

/-- The closure of a cell holds exactly the cells that lead to it. -/
theorem mem_closure_iff {g : Graph} (h : g.Mirrored) {a b : Address} :
    b ∈ g.closure a ↔ TransGen g.Reads b a := by
  have hswap : g.dependents.Linked = Function.swap g.Reads := by
    funext x y
    exact propext (h y x)
  rw [closure, Links.mem_reach, ← transGen_swap, TransGen.head'_iff, ← hswap]
  simp only [Std.ExtTreeSet.mem_toList]
  rfl

end Recalc.Graph
