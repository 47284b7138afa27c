import Recalc.Proofs.Document.Readable
import Recalc.Proofs.Graph.Canonical
import Recalc.Sheet.Store

namespace Recalc

open Relation

theorem Graph.Trimmed.store {d : Document} (h : d.graph.Trimmed) (a : Address) (c : Cell) :
    (d.store a c).1.graph.Trimmed := by
  have hremoved := h.removeOutgoing a
  have hstored := Document.stored_store d a c
  generalize d.store a c = result at hstored
  cases hstored with
  | unread => exact h
  | rejected => exact hremoved
  | accepted => exact hremoved.foldl_add a _

theorem Graph.Trimmed.erase {d : Document} (h : d.graph.Trimmed) (a : Address) :
    (d.erase a).graph.Trimmed :=
  h.removeOutgoing a

namespace Document

/-- The graph of a document is the one that loading its sheet gives, but for the links of formulas
that cannot be read. -/
structure UpToDate (d : Document) : Prop where
  /-- A cell is linked to what its formula depends on, and to nothing if it has no formula. -/
  links : ∀ a, ¬ d.sheet.Unread a → d.graph.precedents.of a =
    Std.ExtTreeSet.ofList ((d.sheet.get? a).elim [] d.sheet.dependencies)
  rebuilt : ∀ a, ¬ d.sheet.Unread a →
    d.graph.precedents.of a = (Graph.ofSheet d.sheet).precedents.of a
  graph : (∀ a, ¬ d.sheet.Unread a) → d.graph = Graph.ofSheet d.sheet
  /-- What is stored and loaded again is the same document. -/
  stored : (∀ a, ¬ d.sheet.Unread a) → ∀ store : Store,
    ((store.insert d.sheet).get? d.sheet.id).map (load · d.policy) = some d

theorem trimmed_run (s : Sheet) (policy : Policy) (ops : List Operation) :
    ((load s policy).run ops).graph.Trimmed := by
  have hload : ∀ t p, (load t p).graph.Trimmed := fun t _ => Graph.trimmed_ofSheet t
  refine run_invariant (P := fun d => d.graph.Trimmed) ?_ ?_ ?_ ?_ ?_ (hload s policy)
  · exact fun d count _ => hload _ d.policy
  · exact fun d count _ => hload _ d.policy
  · exact fun d o t _ _ _ => hload t d.policy
  · exact fun d a c _ h => h.store a c
  · exact fun d a _ h => h.erase a

variable {d : Document} {t : Sheet} {a : Address}

theorem mem_dependencies_at {s : Sheet} {b : Address} :
    b ∈ (s.get? a).elim [] s.dependencies ↔ s.Reads a b := by
  unfold Sheet.Reads
  cases s.get? a with
  | none => simp
  | some c => simp

/-- No link of the sheet is left out when it is loaded anew. -/
theorem Linked.ofSheet_reads_iff (h : d.Linked) {b : Address} :
    (Graph.ofSheet d.sheet).Reads a b ↔ d.sheet.Reads a b := by
  have hfree : ∀ a, ¬ TransGen d.sheet.Reads a a :=
    fun a ha => h.sound.acyclic a (TransGen.mono h.links a a ha)
  exact ⟨Graph.reads_of_ofSheet, Graph.ofSheet_reads_of_loopFree hfree⟩

theorem Tracks.upToDate (h : d.Tracks t) (htrimmed : d.graph.Trimmed) : d.UpToDate := by
  have hgraph : (∀ a, ¬ d.sheet.Unread a) → d.graph = Graph.ofSheet d.sheet := by
    intro hread
    refine Graph.eq_of_reads htrimmed (Graph.trimmed_ofSheet _) h.linked.sound.mirrored
      (Graph.mirrored_ofSheet _) fun a b => ?_
    rw [h.reads_iff (hread a), h.linked.ofSheet_reads_iff]
  constructor
  case links =>
    intro a hread
    refine Std.ExtTreeSet.ext_mem fun b => ?_
    rw [Graph.mem_members, mem_dependencies_at]
    exact h.reads_iff hread b
  case rebuilt =>
    intro a hread
    refine Std.ExtTreeSet.ext_mem fun b => ?_
    exact (h.reads_iff hread b).trans h.linked.ofSheet_reads_iff.symm
  case graph => exact hgraph
  case stored =>
    intro hread store
    have hfound : (store.insert d.sheet).get? d.sheet.id = some d.sheet :=
      Std.ExtTreeMap.getElem?_insert_self
    rw [hfound, Option.map_some, Document.load, ← hgraph hread]

/-- The graph that is kept up edit by edit is the graph that loading the sheet gives. -/
theorem upToDate_run {s : Sheet} (policy : Policy)
    (hinside : ∀ a c, s.get? a = some c → s.contains a = true)
    (hfree : ∀ a, ¬ TransGen s.Reads a a) {ops : List Operation}
    (hsort : ∀ o, Operation.sort o ∉ ops) : ((load s policy).run ops).UpToDate :=
  (tracks_run policy hinside hfree hsort).upToDate (trimmed_run s policy ops)

theorem pairSheet_inside {a : Address} {c : Cell} (h : pairSheet.get? a = some c) :
    pairSheet.contains a = true := by
  rcases pairSheet_get? h with ⟨rfl, rfl⟩ | ⟨rfl, rfl⟩
  · rfl
  · rfl

/-- A formula that cannot be read is written over the one of the pair, and then the cell is
cleared. -/
theorem upToDate_run_pair :
    ((load pairSheet Policy.standard).run
        [.edit (.update ⟨0, 1⟩ (.formula "=A1+" none)), .edit (.clear ⟨0, 1⟩)]).graph =
      Graph.ofSheet ((load pairSheet Policy.standard).run
        [.edit (.update ⟨0, 1⟩ (.formula "=A1+" none)), .edit (.clear ⟨0, 1⟩)]).sheet := by
  refine (upToDate_run Policy.standard (fun _ _ => pairSheet_inside) pairSheet_loopFree
    (by simp)).graph ?_
  rintro a ⟨source, hsource⟩
  change ((pairSheet.set ⟨0, 1⟩ (.formula "=A1+" none)).remove ⟨0, 1⟩).get? a =
    some (.formula source none) at hsource
  rw [Sheet.get?_remove, Sheet.get?_set] at hsource
  split at hsource
  · cases hsource
  · rcases pairSheet_get? hsource with ⟨rfl, h⟩ | ⟨rfl, h⟩
    · cases h
    · cases h

end Document

end Recalc
