import Recalc.Proofs.Document.History

namespace Recalc

open Relation

/-- The two ends of the graph agree, and no cell leads back to itself. -/
structure Graph.Sound (g : Graph) : Prop where
  mirrored : g.Mirrored
  acyclic : g.Acyclic

theorem Graph.sound_ofSheet (s : Sheet) : (Graph.ofSheet s).Sound :=
  ⟨Graph.mirrored_ofSheet s, Graph.acyclic_ofSheet s⟩

theorem Graph.Sound.store {d : Document} (h : d.graph.Sound) (a : Address) (c : Cell) :
    (d.store a c).1.graph.Sound := by
  have hmirrored := h.mirrored.removeOutgoing a
  have hacyclic := h.acyclic.removeOutgoing a
  have hstored := Document.stored_store d a c
  generalize d.store a c = result at hstored
  cases hstored with
  | unread => exact h
  | rejected => exact ⟨hmirrored, hacyclic⟩
  | accepted _ hfree => exact ⟨hmirrored.foldl_add a _, hacyclic.foldl_add hfree⟩

theorem Graph.Sound.erase {d : Document} (h : d.graph.Sound) (a : Address) :
    (d.erase a).graph.Sound :=
  ⟨h.mirrored.removeOutgoing a, h.acyclic.removeOutgoing a⟩

namespace Document

theorem sound_run (s : Sheet) (policy : Policy) (ops : List Operation) :
    ((load s policy).run ops).graph.Sound := by
  have hload : ∀ t p, (load t p).graph.Sound := fun t _ => Graph.sound_ofSheet t
  refine run_invariant (P := fun d => d.graph.Sound) ?_ ?_ ?_ ?_ ?_ (hload s policy)
  · exact fun d count _ => hload _ d.policy
  · exact fun d count _ => hload _ d.policy
  · exact fun d o t _ _ _ => hload t d.policy
  · exact fun d a c _ h => h.store a c
  · exact fun d a _ h => h.erase a

/-- Whatever is loaded and whatever is done with it, the graph holds no loop, no cell that reads
itself, and both of its ends tell the same. -/
theorem run_graph_loopFree (s : Sheet) (policy : Policy) (ops : List Operation) :
    (∀ a, ¬ TransGen ((load s policy).run ops).graph.Reads a a) ∧
      (∀ a, ¬ ((load s policy).run ops).graph.Reads a a) ∧
      ((load s policy).run ops).graph.isConsistent = true := by
  have hsound := sound_run s policy ops
  refine ⟨hsound.acyclic, ?_, Graph.isConsistent_iff.mpr hsound.mirrored⟩
  intro a hself
  exact hsound.acyclic a (.single hself)

end Document

end Recalc
