import Recalc.Proofs.Graph.Loading

namespace Recalc

namespace Links

/-- No entry is empty. -/
def Trimmed (m : Links) : Prop := ∀ a : Address, m[a]? ≠ some ∅

variable {m n : Links} {a b : Address}

theorem trimmed_empty : Trimmed ∅ := by
  simp [Trimmed]

theorem Trimmed.insert (h : m.Trimmed) (a : Address) {s : AddressSet} (hs : s ≠ ∅) :
    Trimmed (m.insert a s) := by
  intro x
  rw [Std.ExtTreeMap.getElem?_insert]
  split
  · simpa using hs
  · exact h x

theorem Trimmed.erase (h : m.Trimmed) (a : Address) : Trimmed (m.erase a) := by
  intro x
  rw [Std.ExtTreeMap.getElem?_erase]
  split
  · simp
  · exact h x

theorem Trimmed.link (h : m.Trimmed) (a b : Address) : (m.link a b).Trimmed :=
  h.insert a Std.ExtTreeSet.insert_ne_empty

theorem Trimmed.unlink (h : m.Trimmed) (a b : Address) : (m.unlink a b).Trimmed := by
  unfold Links.unlink
  dsimp only
  split
  next => exact h.erase a
  next hleft => exact h.insert a fun hempty => hleft (Std.ExtTreeSet.isEmpty_iff.mpr hempty)

theorem Trimmed.foldl_unlink (h : m.Trimmed) (b : Address) (as : List Address) :
    Trimmed (as.foldl (fun m a => m.unlink a b) m) := by
  induction as generalizing m with
  | nil => exact h
  | cons a as ih => exact ih (h.unlink a b)

/-- An entry is there exactly if something is linked. -/
theorem Trimmed.getElem?_eq (h : m.Trimmed) (a : Address) :
    m[a]? = if m.of a = ∅ then none else some (m.of a) := by
  unfold Links.of
  rw [Std.ExtTreeMap.getD_eq_getD_getElem?]
  have ha := h a
  cases hs : m[a]? with
  | none => simp
  | some s =>
    have hne : s ≠ ∅ := fun hempty => ha (hs.trans (congrArg some hempty))
    simp [hne]

/-- Without empty entries the links alone make the map. -/
theorem Trimmed.ext (hm : m.Trimmed) (hn : n.Trimmed)
    (h : ∀ a b, m.Linked a b ↔ n.Linked a b) : m = n := by
  refine Std.ExtTreeMap.ext_getElem? fun a => ?_
  have hof : m.of a = n.of a := Std.ExtTreeSet.ext_mem (h a)
  rw [hm.getElem?_eq, hn.getElem?_eq, hof]

end Links

namespace Graph

/-- Neither end of the graph keeps an empty entry. -/
structure Trimmed (g : Graph) : Prop where
  precedents : g.precedents.Trimmed
  dependents : g.dependents.Trimmed

variable {g h : Graph}

theorem trimmed_empty : empty.Trimmed := ⟨Links.trimmed_empty, Links.trimmed_empty⟩

theorem Trimmed.add (hg : g.Trimmed) (a b : Address) : (g.add a b).Trimmed :=
  ⟨hg.precedents.link a b, hg.dependents.link b a⟩

theorem Trimmed.foldl_add (hg : g.Trimmed) (a : Address) (reads : List Address) :
    (reads.foldl (fun g b => g.add a b) g).Trimmed := by
  induction reads generalizing g with
  | nil => exact hg
  | cons b reads ih => exact ih (hg.add a b)

theorem Trimmed.removeOutgoing (hg : g.Trimmed) (a : Address) : (g.removeOutgoing a).Trimmed :=
  ⟨hg.precedents.erase a, hg.dependents.foldl_unlink a _⟩

theorem Trimmed.addUnlessLoop (hg : g.Trimmed) (a b : Address) : (g.addUnlessLoop a b).Trimmed := by
  unfold Graph.addUnlessLoop
  split
  · exact hg
  · exact hg.add a b

theorem Trimmed.addAll (hg : g.Trimmed) (links : List (Address × Address)) :
    (g.addAll links).Trimmed := by
  induction links generalizing g with
  | nil => exact hg
  | cons link links ih => exact ih (hg.addUnlessLoop link.1 link.2)

theorem trimmed_ofSheet (s : Sheet) : (ofSheet s).Trimmed := by
  rw [ofSheet_eq_addAll]
  exact trimmed_empty.addAll s.links

/-- Graphs in which the same cells read the same are equal. -/
theorem eq_of_reads (hg : g.Trimmed) (hh : h.Trimmed) (hgm : g.Mirrored) (hhm : h.Mirrored)
    (hreads : ∀ a b, g.Reads a b ↔ h.Reads a b) : g = h := by
  have hprecedents : g.precedents = h.precedents := hg.precedents.ext hh.precedents hreads
  have hdependents : g.dependents = h.dependents := by
    refine hg.dependents.ext hh.dependents fun b a => ?_
    rw [hgm a b, hhm a b, hreads a b]
  cases g
  cases h
  exact congrArg₂ Graph.mk hprecedents hdependents

end Graph

end Recalc
