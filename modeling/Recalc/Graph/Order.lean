import Recalc.Graph.Basic

namespace Recalc

/-- How some cells can be evaluated one after another. -/
structure EvaluationOrder where
  /-- Each cell comes behind those of the given cells that it reads. -/
  order : List Address
  /-- The cells that have no place in the order, row by row. -/
  stalled : List Address

namespace Graph

/-- Cells that wait, each with the number of those it waits for. No number is zero. -/
abbrev Waiting := AddressMap Nat

/-- One of the cells that `reader` waits for has been evaluated. When it was the last, the reader
stops waiting and joins the cells that are free. -/
def release (state : Waiting × List Address) (reader : Address) : Waiting × List Address :=
  match state.1[reader]? with
  | none => state
  | some n =>
    if n ≤ 1 then (state.1.erase reader, state.2 ++ [reader])
    else (state.1.insert reader (n - 1), state.2)

theorem release_size (state : Waiting × List Address) (reader : Address) :
    (release state reader).1.size + (release state reader).2.length =
      state.1.size + state.2.length := by
  unfold release
  split
  next => rfl
  next n hn =>
    have hmem : reader ∈ state.1 := Std.ExtTreeMap.mem_iff_isSome_getElem?.mpr (by simp [hn])
    have hpos : state.1.size ≠ 0 := fun h => by
      simp [Std.ExtTreeMap.eq_empty_iff_size_eq_zero.mpr h] at hmem
    split
    next => simp [Std.ExtTreeMap.size_erase, hmem]; omega
    next => simp [Std.ExtTreeMap.size_insert, hmem]

theorem foldl_release_size (state : Waiting × List Address) (readers : List Address) :
    (readers.foldl release state).1.size + (readers.foldl release state).2.length =
      state.1.size + state.2.length := by
  induction readers generalizing state with
  | nil => rfl
  | cons r rs ih => rw [List.foldl_cons, ih, release_size]

/-- Take the cells of the queue in turn; those that become free by it join the end of the queue. -/
def evaluationLoop (g : Graph) (waiting : Waiting) : List Address → EvaluationOrder
  | [] => ⟨[], waiting.keys⟩
  | a :: queue =>
    let freed := (g.dependents.of a).toList.foldl release (waiting, [])
    let later := evaluationLoop g freed.1 (queue ++ freed.2)
    { later with order := a :: later.order }
termination_by queue => waiting.size + queue.length
decreasing_by
  have h := foldl_release_size (waiting, []) (g.dependents.of a).toList
  simp only [List.length_nil, List.length_append, List.length_cons] at h ⊢
  omega

def pending (g : Graph) (members : AddressSet) (a : Address) : Nat :=
  ((g.precedents.of a).toList.filter (· ∈ members)).length

/-- The order in which to evaluate some cells, given who reads whom among them. -/
def evaluationOrder (g : Graph) (cells : List Address) : EvaluationOrder :=
  let members := Std.ExtTreeSet.ofList cells
  let counted := members.toList.map fun a => (a, g.pending members a)
  let waiting := Std.ExtTreeMap.ofList (counted.filter fun entry => entry.2 ≠ 0)
  g.evaluationLoop waiting ((counted.filter fun entry => entry.2 = 0).map (·.1))

end Graph

end Recalc
