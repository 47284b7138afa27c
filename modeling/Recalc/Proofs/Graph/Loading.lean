import Recalc.Proofs.Graph.Loops
import Recalc.Proofs.Sheet.Reads

namespace Recalc

open Relation

/-- What the stored formulas read, row by row: each reader with one of the cells that it reads. -/
def Sheet.links (s : Sheet) : List (Address × Address) :=
  s.occupied.flatMap fun entry => (s.dependencies entry.2).map fun b => (entry.1, b)

theorem Sheet.mem_links {s : Sheet} {a b : Address} : (a, b) ∈ s.links ↔ s.Reads a b := by
  simp only [links, List.mem_flatMap, List.mem_map]
  constructor
  · rintro ⟨⟨x, c⟩, hmem, y, hy, heq⟩
    obtain ⟨rfl, rfl⟩ := Prod.mk.inj heq
    exact ⟨c, mem_occupied.mp hmem, hy⟩
  · rintro ⟨c, hc, hb⟩
    exact ⟨(a, c), mem_occupied.mpr hc, b, hb, rfl⟩

namespace Graph

theorem ofSheet_eq_addAll (s : Sheet) : ofSheet s = empty.addAll s.links := by
  unfold ofSheet addAll Sheet.links
  rw [List.foldl_flatMap]
  simp only [List.foldl_map]

theorem mirrored_ofSheet (s : Sheet) : (ofSheet s).Mirrored := by
  rw [ofSheet_eq_addAll]
  exact mirrored_empty.addAll s.links

theorem acyclic_ofSheet (s : Sheet) : (ofSheet s).Acyclic := by
  rw [ofSheet_eq_addAll]
  exact acyclic_empty.addAll s.links

theorem reads_of_ofSheet {s : Sheet} {a b : Address} (h : (ofSheet s).Reads a b) : s.Reads a b := by
  rw [ofSheet_eq_addAll] at h
  exact Sheet.mem_links.mp ((reads_addAll h).resolve_left not_reads_empty)

/-- A link that is left out while a sheet is loaded would close a loop in the loaded graph. -/
theorem ofSheet_reads_or_leads {s : Sheet} {a b : Address} (h : s.Reads a b) :
    (ofSheet s).Reads a b ∨ ReflTransGen (ofSheet s).Reads b a := by
  rw [ofSheet_eq_addAll]
  exact addAll_reads_or_leads (Sheet.mem_links.mpr h)

theorem ofSheet_reads_of_loopFree {s : Sheet} (hfree : ∀ a, ¬ TransGen s.Reads a a) {a b : Address}
    (h : s.Reads a b) : (ofSheet s).Reads a b := by
  have hlinks : (fun x y => (x, y) ∈ s.links) = s.Reads := by
    funext x y
    exact propext Sheet.mem_links
  rw [ofSheet_eq_addAll]
  apply addAll_reads_of_loopFree
  · rw [hlinks]
    exact hfree
  · exact Sheet.mem_links.mpr h

/-- No larger part of the links read by a sheet is free of loops. -/
theorem ofSheet_maximal {s : Sheet} {r : Address → Address → Prop}
    (hkept : ∀ a b, (ofSheet s).Reads a b → r a b) (hread : ∀ a b, r a b → s.Reads a b)
    (hfree : ∀ a, ¬ TransGen r a a) {a b : Address} (h : r a b) : (ofSheet s).Reads a b := by
  rcases ofSheet_reads_or_leads (hread a b h) with hreads | hlead
  · exact hreads
  · have hback : ReflTransGen r b a := ReflTransGen.mono hkept b a hlead
    exact absurd (TransGen.head' h hback) (hfree a)

theorem eq_or_leads_of_left_out {s : Sheet} {a b : Address} (h : s.Reads a b)
    (hout : ¬ (ofSheet s).Reads a b) : b = a ∨ TransGen (ofSheet s).Reads b a := by
  have hlead := (ofSheet_reads_or_leads h).resolve_left hout
  exact (reflTransGen_iff_eq_or_transGen.mp hlead).imp_left Eq.symm

/-- A loaded sheet keeps links that its formulas read and that form no loop, as many as can be: one
that is left out would close a loop with those that are kept. If there is no loop in the sheet, all
links are kept. -/
theorem ofSheet_keeps_maximal_loopFree (s : Sheet) :
    (∀ a, ¬ TransGen (ofSheet s).Reads a a) ∧ (ofSheet s).isConsistent = true ∧
      (∀ a b, (ofSheet s).Reads a b → ∃ e, s.Holds a e ∧ b ∈ e.dependencies s.rows s.cols) ∧
      (∀ a b, s.Reads a b → ¬ (ofSheet s).Reads a b →
        b = a ∨ TransGen (ofSheet s).Reads b a) ∧
      (∀ r : Address → Address → Prop, (∀ a b, (ofSheet s).Reads a b → r a b) →
        (∀ a b, r a b → s.Reads a b) → (∀ a, ¬ TransGen r a a) →
          ∀ a b, r a b → (ofSheet s).Reads a b) ∧
      ((∀ a, ¬ TransGen s.Reads a a) → ∀ a b, s.Reads a b → (ofSheet s).Reads a b) := by
  refine ⟨acyclic_ofSheet s, isConsistent_iff.mpr (mirrored_ofSheet s), ?_, ?_, ?_, ?_⟩
  · exact fun a b h => Sheet.reads_iff.mp (reads_of_ofSheet h)
  · exact fun a b h hout => eq_or_leads_of_left_out h hout
  · exact fun r hkept hread hfree a b h => ofSheet_maximal hkept hread hfree h
  · exact fun hfree a b h => ofSheet_reads_of_loopFree hfree h

/-- A formula that refers to itself, two that refer to each other, one that cannot be read, and one
outside of the sheet. -/
def tangle : Sheet :=
  (((((Sheet.empty "s" "Sheet" 1 4).set ⟨0, 0⟩
      (.formula "=A1" (some (.ref ⟨⟨0, 0⟩, ⟨false, false⟩⟩)))).set ⟨0, 1⟩
      (.formula "=C1" (some (.ref ⟨⟨0, 2⟩, ⟨false, false⟩⟩)))).set ⟨0, 2⟩
      (.formula "=B1" (some (.ref ⟨⟨0, 1⟩, ⟨false, false⟩⟩)))).set ⟨0, 3⟩
      (.formula "=A1+" none)).set ⟨8, 8⟩
    (.formula "=B1" (some (.ref ⟨⟨0, 1⟩, ⟨false, false⟩⟩)))

theorem tangle_reads {a b : Address} : tangle.Reads a b ↔
    (a, b) ∈ [(⟨0, 0⟩, ⟨0, 0⟩), (⟨0, 1⟩, ⟨0, 2⟩), (⟨0, 2⟩, ⟨0, 1⟩), (⟨8, 8⟩, (⟨0, 1⟩ : Address))] := by
  have hlinks : tangle.links =
    [(⟨0, 0⟩, ⟨0, 0⟩), (⟨0, 1⟩, ⟨0, 2⟩), (⟨0, 2⟩, ⟨0, 1⟩), (⟨8, 8⟩, ⟨0, 1⟩)] := rfl
  rw [← Sheet.mem_links, hlinks]

/-- The reference of a formula to itself is left out, and so is one of the two that form a loop. The
formula outside of the sheet lies on no loop, so what it reads is kept. -/
theorem ofSheet_keeps_maximal_loopFree_tangle :
    ¬ (ofSheet tangle).Reads ⟨0, 0⟩ ⟨0, 0⟩ ∧
      ¬ ((ofSheet tangle).Reads ⟨0, 1⟩ ⟨0, 2⟩ ∧ (ofSheet tangle).Reads ⟨0, 2⟩ ⟨0, 1⟩) ∧
      (ofSheet tangle).Reads ⟨8, 8⟩ ⟨0, 1⟩ := by
  obtain ⟨hfree, _, hkept, hout, _, _⟩ := ofSheet_keeps_maximal_loopFree tangle
  refine ⟨fun h => hfree _ (.single h), fun h => hfree _ (.tail (.single h.1) h.2), ?_⟩
  refine Classical.byContradiction fun hnot => ?_
  rcases hout _ _ (tangle_reads.mpr (by decide)) hnot with heq | hlead
  · cases heq
  · -- No formula refers to a cell outside of the sheet.
    obtain ⟨x, _, hlast⟩ := TransGen.tail'_iff.mp hlead
    have hread := tangle_reads.mp (Sheet.reads_iff.mpr (hkept _ _ hlast))
    simp at hread

end Graph

end Recalc
