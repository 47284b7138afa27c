import Mathlib.Algebra.BigOperators.Group.List.Basic
import Mathlib.Algebra.GroupWithZero.Nat
import Recalc.Proofs.Graph.Changes

namespace Recalc

open Relation

namespace Links

/-- An order in which the links of each address are gone through. -/
structure Listing (m : Links) where
  list : Address → List Address
  perm : ∀ a, (list a).Perm (m.of a).toList

def Listing.backwards (m : Links) : m.Listing :=
  ⟨fun a => (m.of a).toList.reverse, fun _ => List.reverse_perm _⟩

/-- Whether the target turns up, where the address that waits last is looked at first. There is no
answer where the search takes more than some number of turns. -/
def findDepthFirst {m : Links} (l : m.Listing) (target : Address) :
    Nat → AddressSet → List Address → Option Bool
  | 0, _, _ => none
  | _ + 1, _, [] => some false
  | turns + 1, seen, a :: stack =>
    if a = target then some true
    else if a ∈ seen then findDepthFirst l target turns seen stack
    else findDepthFirst l target turns (seen.insert a) ((l.list a).reverse ++ stack)

/-- All that turns up, where the address that waits first is looked at first. -/
def reachBreadthFirst {m : Links} (l : m.Listing) :
    Nat → AddressSet → List Address → Option AddressSet
  | 0, _, _ => none
  | _ + 1, seen, [] => some seen
  | turns + 1, seen, a :: queue =>
    if a ∈ seen then reachBreadthFirst l turns seen queue
    else reachBreadthFirst l turns (seen.insert a) (queue ++ l.list a)

/-- What holds at each turn of a search, in whichever order it goes. -/
structure Searching (m : Links) (starts : List Address) (seen : AddressSet)
    (waiting : List Address) : Prop where
  sound : ∀ x, x ∈ seen ∨ x ∈ waiting → ∃ w ∈ starts, ReflTransGen m.Linked w x
  covers : ∀ w ∈ starts, w ∈ seen ∨ w ∈ waiting
  closed : ∀ x ∈ seen, ∀ y, m.Linked x y → y ∈ seen ∨ y ∈ waiting

variable {m : Links} {starts waiting waiting' : List Address} {seen : AddressSet} {a x : Address}

theorem searching_start (m : Links) (starts : List Address) : m.Searching starts ∅ starts where
  sound := by
    intro x hx
    have hx : x ∈ starts := hx.resolve_left (by simp)
    exact ⟨x, hx, .refl⟩
  covers := fun _ hw => Or.inr hw
  closed := by simp

theorem Searching.skip (h : m.Searching starts seen (a :: waiting)) (ha : a ∈ seen) :
    m.Searching starts seen waiting := by
  have hdrop : ∀ y, y ∈ seen ∨ y ∈ a :: waiting → y ∈ seen ∨ y ∈ waiting := by
    intro y hy
    rcases hy with hy | hy
    · exact Or.inl hy
    · rcases List.mem_cons.mp hy with rfl | hy
      · exact Or.inl ha
      · exact Or.inr hy
  constructor
  case sound => exact fun x hx => h.sound x (hx.imp_right (List.mem_cons_of_mem a))
  case covers => exact fun w hw => hdrop w (h.covers w hw)
  case closed => exact fun x hx y hy => hdrop y (h.closed x hx y hy)

/-- It does not matter where the links of the address join those that wait. -/
theorem Searching.visit (h : m.Searching starts seen (a :: waiting))
    (hmem : ∀ y, y ∈ waiting' ↔ y ∈ waiting ∨ m.Linked a y) :
    m.Searching starts (seen.insert a) waiting' := by
  have hinsert : ∀ y, y ∈ seen.insert a ↔ y = a ∨ y ∈ seen := by
    intro y
    rw [Std.ExtTreeSet.mem_insert, Std.compare_eq_iff_eq, eq_comm]
  have hkeep : ∀ y, y ∈ seen ∨ y ∈ a :: waiting → y ∈ seen.insert a ∨ y ∈ waiting' := by
    intro y hy
    rw [hinsert, hmem]
    rw [List.mem_cons] at hy
    tauto
  constructor
  case sound =>
    intro x hx
    rw [hinsert, hmem] at hx
    have hold : x ∈ seen ∨ x ∈ a :: waiting ∨ m.Linked a x := by
      rw [List.mem_cons]
      tauto
    rcases hold with hx | hx | hx
    · exact h.sound x (Or.inl hx)
    · exact h.sound x (Or.inr hx)
    · obtain ⟨w, hw, hwa⟩ := h.sound a (Or.inr List.mem_cons_self)
      exact ⟨w, hw, hwa.tail hx⟩
  case covers => exact fun w hw => hkeep w (h.covers w hw)
  case closed =>
    intro x hx y hy
    rcases (hinsert x).mp hx with rfl | hx
    · exact Or.inr ((hmem y).mpr (Or.inr hy))
    · exact hkeep y (h.closed x hx y hy)

theorem Searching.mem_iff (h : m.Searching starts seen []) :
    x ∈ seen ↔ x ∈ m.reach ∅ starts := by
  rw [mem_reach]
  constructor
  · exact fun hx => h.sound x (Or.inl hx)
  · rintro ⟨w, hw, hwx⟩
    induction hwx with
    | refl => exact (h.covers w hw).resolve_right List.not_mem_nil
    | tail _ hlink ih => exact (h.closed _ ih _ hlink).resolve_right List.not_mem_nil

/-- The number of links out of addresses that have not been seen. -/
def countOutside (m : Links) (seen : AddressSet) : Nat :=
  ((AddressMap.outside m seen).map fun a => (m.of a).size).sum

theorem nodup_outside (m : Links) (seen : AddressSet) : (AddressMap.outside m seen).Nodup :=
  Std.ExtTreeMap.nodup_keys.filter _

theorem outside_insert_of_mem (hm : a ∈ m) (hs : a ∉ seen) :
    (AddressMap.outside m seen).Perm (a :: AddressMap.outside m (seen.insert a)) := by
  rw [List.perm_ext_iff_of_nodup (nodup_outside m seen)]
  · intro x
    simp only [AddressMap.outside, List.mem_cons, List.mem_filter, decide_eq_true_eq,
      Std.ExtTreeMap.mem_keys, Std.ExtTreeSet.mem_insert, Std.compare_eq_iff_eq]
    grind
  · refine List.nodup_cons.mpr ⟨?_, nodup_outside m _⟩
    simp [AddressMap.outside]

theorem countOutside_insert (hs : a ∉ seen) :
    m.countOutside (seen.insert a) + (m.of a).size = m.countOutside seen := by
  by_cases hm : a ∈ m
  · have hsum := ((outside_insert_of_mem hm hs).map fun x => (m.of x).size).sum_eq
    rw [List.map_cons, List.sum_cons] at hsum
    unfold countOutside
    omega
  · have hof : m.of a = ∅ := Std.ExtTreeMap.getD_eq_fallback hm
    unfold countOutside
    rw [AddressMap.outside_insert_eq hm, hof]
    rfl

theorem countOutside_empty (m : Links) : m.countOutside ∅ = m.count := by
  have hkeys : AddressMap.outside m ∅ = m.toList.map (·.1) := by
    rw [Std.ExtTreeMap.map_fst_toList_eq_keys]
    simp [AddressMap.outside]
  have hsizes : m.toList.map (fun entry => (m.of entry.1).size) =
      m.toList.map (fun entry => entry.2.size) := by
    refine List.map_congr_left fun entry hentry => ?_
    have hget := Std.ExtTreeMap.mem_toList_iff_getElem?_eq_some.mp hentry
    rw [of, Std.ExtTreeMap.getD_eq_getD_getElem?, hget]
    rfl
  simp only [count_eq_length, List.length_flatMap, Std.ExtTreeSet.length_toList, ← hsizes]
  rw [countOutside, hkeys, List.map_map]
  rfl

theorem Listing.mem_list (l : m.Listing) : x ∈ l.list a ↔ m.Linked a x :=
  (l.perm a).mem_iff.trans Std.ExtTreeSet.mem_toList

theorem Listing.length_list (l : m.Listing) (a : Address) : (l.list a).length = (m.of a).size :=
  (l.perm a).length_eq.trans Std.ExtTreeSet.length_toList

/-- Each turn takes one address away, and each link is walked at most once, so that those that wait
and the links still to be walked bound the number of turns. -/
theorem findDepthFirst_eq (l : m.Listing) {target : Address} {turns : Nat}
    (h : m.Searching starts seen waiting) (htarget : target ∉ seen)
    (hturns : waiting.length + m.countOutside seen < turns) :
    findDepthFirst l target turns seen waiting = some (decide (target ∈ m.reach ∅ starts)) := by
  induction turns generalizing seen waiting with
  | zero => omega
  | succ turns ih =>
    cases waiting with
    | nil =>
      have hnot : target ∉ m.reach ∅ starts := fun ht => htarget (h.mem_iff.mpr ht)
      rw [findDepthFirst, decide_eq_false hnot]
    | cons a stack =>
      rw [List.length_cons] at hturns
      rw [findDepthFirst]
      split
      next heq =>
        subst heq
        have hreached := mem_reach.mpr (h.sound a (Or.inr List.mem_cons_self))
        rw [decide_eq_true hreached]
      next hne =>
        split
        next hseen => exact ih (h.skip hseen) htarget (by omega)
        next hseen =>
          have hcount := countOutside_insert (m := m) hseen
          have hlength := l.length_list a
          refine ih (h.visit fun y => ?_) ?_ ?_
          · rw [List.mem_append, List.mem_reverse, l.mem_list, or_comm]
          · simp [htarget, hne]
          · rw [List.length_append, List.length_reverse]
            omega

theorem reachBreadthFirst_eq (l : m.Listing) {turns : Nat} (h : m.Searching starts seen waiting)
    (hturns : waiting.length + m.countOutside seen < turns) :
    reachBreadthFirst l turns seen waiting = some (m.reach ∅ starts) := by
  induction turns generalizing seen waiting with
  | zero => omega
  | succ turns ih =>
    cases waiting with
    | nil =>
      have hseen : seen = m.reach ∅ starts := Std.ExtTreeSet.ext_mem fun x => h.mem_iff
      rw [reachBreadthFirst, hseen]
    | cons a queue =>
      rw [List.length_cons] at hturns
      rw [reachBreadthFirst]
      split
      next hseen => exact ih (h.skip hseen) (by omega)
      next hseen =>
        have hcount := countOutside_insert (m := m) hseen
        have hlength := l.length_list a
        refine ih (h.visit fun y => ?_) ?_
        · rw [List.mem_append, l.mem_list]
        · rw [List.length_append]
          omega

end Links

namespace Graph

def closesLoopInPlace (g : Graph) (l : g.precedents.Listing) (turns : Nat)
    (reader read : Address) : Option Bool :=
  Links.findDepthFirst l reader turns ∅ [read]

def closureInPlace (g : Graph) (l : g.dependents.Listing) (turns : Nat) (a : Address) :
    Option AddressSet :=
  Links.reachBreadthFirst l turns ∅ (l.list a)

variable {g : Graph}

theorem closesLoopInPlace_eq (l : g.precedents.Listing) {turns : Nat}
    (hturns : g.edgeCount + 1 < turns) (reader read : Address) :
    g.closesLoopInPlace l turns reader read = some (g.closesLoop reader read) := by
  have hcount : g.precedents.countOutside ∅ = g.edgeCount := Links.countOutside_empty _
  refine Links.findDepthFirst_eq l (Links.searching_start _ _) (by simp) ?_
  rw [List.length_singleton, hcount]
  omega

theorem closureInPlace_eq (l : g.dependents.Listing) {turns : Nat} {a : Address}
    (hturns : (g.dependents.of a).size + g.dependents.count < turns) :
    g.closureInPlace l turns a = some (g.closure a) := by
  have hstart : g.dependents.reach ∅ (l.list a) = g.closure a := by
    refine Std.ExtTreeSet.ext_mem fun x => ?_
    simp only [closure, Links.mem_reach, (l.perm a).mem_iff]
  rw [← hstart]
  refine Links.reachBreadthFirst_eq l (Links.searching_start _ _) ?_
  rw [l.length_list, Links.countOutside_empty]
  exact hturns

/-- However a graph came about, loops included, both searches end and find what can be reached, in
whichever order the links of a cell are gone through. -/
theorem searches_find_reachable (changes : List Change) (forth : (build changes).precedents.Listing)
    (back : (build changes).dependents.Listing) :
    (∀ reader read,
      (∀ turns, (build changes).edgeCount + 1 < turns →
        (build changes).closesLoopInPlace forth turns reader read =
          some ((build changes).closesLoop reader read)) ∧
      ((build changes).closesLoop reader read = true ↔
        ReflTransGen (build changes).Reads read reader)) ∧
      ∀ a,
        (∀ turns, ((build changes).dependents.of a).size + (build changes).dependents.count < turns →
          (build changes).closureInPlace back turns a = some ((build changes).closure a)) ∧
        (∀ b, b ∈ (build changes).closure a ↔ TransGen (build changes).Reads b a) := by
  constructor
  · intro reader read
    exact ⟨fun turns hturns => closesLoopInPlace_eq forth hturns reader read, closesLoop_iff⟩
  · intro a
    exact ⟨fun turns hturns => closureInPlace_eq back hturns,
      fun b => mem_closure_iff (mirrored_build changes)⟩

/-- Two cells that read each other, and a third one that reads the first. -/
def knot : List Change :=
  [.add ⟨0, 0⟩ ⟨0, 1⟩, .add ⟨0, 1⟩ ⟨0, 0⟩, .add ⟨0, 2⟩ ⟨0, 0⟩]

theorem reads_knot {a b : Address} : (build knot).Reads a b ↔
    a = ⟨0, 0⟩ ∧ b = ⟨0, 1⟩ ∨ a = ⟨0, 1⟩ ∧ b = ⟨0, 0⟩ ∨ a = ⟨0, 2⟩ ∧ b = ⟨0, 0⟩ := by
  simp only [knot, build, List.foldl_cons, List.foldl_nil, change, reads_add, not_reads_empty,
    false_or, or_assoc]

/-- The third cell leads to the first, so that it would close a loop for the first to read it. The
cells that read each other are in the closure of either. -/
theorem searches_find_reachable_knot :
    (build knot).edgeCount + 1 < 5 ∧
      (build knot).closesLoopInPlace (.backwards _) 5 ⟨0, 0⟩ ⟨0, 2⟩ = some true ∧
      ((build knot).dependents.of ⟨0, 0⟩).size + (build knot).dependents.count < 6 ∧
      ∃ found, (build knot).closureInPlace (.backwards _) 6 ⟨0, 0⟩ = some found ∧
        ⟨0, 0⟩ ∈ found ∧ ⟨0, 1⟩ ∈ found ∧ ⟨0, 2⟩ ∈ found := by
  have hfirst : (build knot).Reads ⟨0, 0⟩ ⟨0, 1⟩ := reads_knot.mpr (by decide)
  have hsecond : (build knot).Reads ⟨0, 1⟩ ⟨0, 0⟩ := reads_knot.mpr (by decide)
  have hthird : (build knot).Reads ⟨0, 2⟩ ⟨0, 0⟩ := reads_knot.mpr (by decide)
  have hedges : (build knot).edgeCount + 1 < 5 := by decide +kernel
  have hturns : ((build knot).dependents.of ⟨0, 0⟩).size + (build knot).dependents.count < 6 := by
    decide +kernel
  obtain ⟨hloops, hclosures⟩ := searches_find_reachable knot (.backwards _) (.backwards _)
  obtain ⟨hdepth, hcloses⟩ := hloops ⟨0, 0⟩ ⟨0, 2⟩
  obtain ⟨hbreadth, hmem⟩ := hclosures ⟨0, 0⟩
  refine ⟨hedges, ?_, hturns, _, hbreadth 6 hturns, ?_, ?_, ?_⟩
  · rw [hdepth 5 hedges, hcloses.mpr (.single hthird)]
  · exact (hmem _).mpr (.tail (.single hfirst) hsecond)
  · exact (hmem _).mpr (.single hsecond)
  · exact (hmem _).mpr (.single hthird)

end Graph

end Recalc
