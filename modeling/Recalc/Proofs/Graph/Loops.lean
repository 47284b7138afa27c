import Recalc.Proofs.Graph.Reads

namespace Recalc.Graph

open Relation

/-- No cell leads back to itself; in particular none reads itself. -/
def Acyclic (g : Graph) : Prop := ∀ a, ¬ TransGen g.Reads a a

theorem acyclic_empty : empty.Acyclic := by
  intro a h
  obtain ⟨b, hb, _⟩ := TransGen.head'_iff.mp h
  exact not_reads_empty hb

theorem Acyclic.mono {g h : Graph} (hg : g.Acyclic) (hsub : ∀ x y, h.Reads x y → g.Reads x y) :
    h.Acyclic :=
  fun a ha => hg a (TransGen.mono hsub a a ha)

theorem Acyclic.removeOutgoing {g : Graph} (hg : g.Acyclic) (a : Address) :
    (g.removeOutgoing a).Acyclic :=
  hg.mono fun _ _ h => (reads_removeOutgoing.mp h).2

theorem leads_of_new_links {g h : Graph} {a x : Address}
    (hnew : ∀ x y, h.Reads x y → g.Reads x y ∨ x = a) (hx : ReflTransGen h.Reads x a) :
    ReflTransGen g.Reads x a := by
  induction hx using ReflTransGen.head_induction_on with
  | refl => exact .refl
  | @head x y hxy _ ih =>
    rcases hnew x y hxy with hold | rfl
    · exact .head hold ih
    · exact .refl

/-- A route either is old, or comes through `a` and goes on behind one of its new links. -/
theorem route_cases {g h : Graph} {a x y : Address} {reads : List Address}
    (hnew : ∀ x y, h.Reads x y → g.Reads x y ∨ (x = a ∧ y ∈ reads))
    (hxy : TransGen h.Reads x y) :
    TransGen g.Reads x y ∨
      (ReflTransGen h.Reads x a ∧ ∃ b ∈ reads, ReflTransGen h.Reads b y) := by
  induction hxy with
  | single hxy =>
    rcases hnew _ _ hxy with hold | ⟨rfl, hy⟩
    · exact Or.inl (.single hold)
    · exact Or.inr ⟨.refl, _, hy, .refl⟩
  | tail hxy hyz ih =>
    rcases ih with hold | ⟨hxa, b, hb, hby⟩
    · rcases hnew _ _ hyz with hyz | ⟨rfl, hz⟩
      · exact Or.inl (hold.tail hyz)
      · exact Or.inr ⟨hxy.to_reflTransGen, _, hz, .refl⟩
    · exact Or.inr ⟨hxa, b, hb, hby.tail hyz⟩

/-- Links out of one cell that close no loop one by one close none together. -/
theorem Acyclic.of_new_links {g h : Graph} {a : Address} {reads : List Address} (hg : g.Acyclic)
    (hnew : ∀ x y, h.Reads x y → g.Reads x y ∨ (x = a ∧ y ∈ reads))
    (hfree : ∀ b ∈ reads, ¬ ReflTransGen g.Reads b a) : h.Acyclic := by
  intro c hc
  rcases route_cases hnew hc with hold | ⟨hca, b, hb, hbc⟩
  · exact hg c hold
  · have hfrom : ∀ x y, h.Reads x y → g.Reads x y ∨ x = a :=
      fun x y hxy => (hnew x y hxy).imp_right And.left
    exact hfree b hb (leads_of_new_links hfrom (hbc.trans hca))

theorem Acyclic.foldl_add {g : Graph} {a : Address} {reads : List Address} (hg : g.Acyclic)
    (hfree : ∀ b ∈ reads, ¬ ReflTransGen g.Reads b a) :
    (reads.foldl (fun g b => g.add a b) g).Acyclic :=
  hg.of_new_links (fun _ _ => reads_foldl_add.mp) hfree

theorem Acyclic.addUnlessLoop {g : Graph} (hg : g.Acyclic) (a b : Address) :
    (g.addUnlessLoop a b).Acyclic := by
  unfold Graph.addUnlessLoop
  split
  next => exact hg
  next hfree =>
    have hlead : ∀ x ∈ [b], ¬ ReflTransGen g.Reads x a := by
      intro x hx h
      obtain rfl := List.mem_singleton.mp hx
      exact hfree (closesLoop_iff.mpr h)
    exact hg.foldl_add hlead

theorem Mirrored.addUnlessLoop {g : Graph} (hg : g.Mirrored) (a b : Address) :
    (g.addUnlessLoop a b).Mirrored := by
  unfold Graph.addUnlessLoop
  split
  · exact hg
  · exact hg.add a b

theorem reads_addUnlessLoop {g : Graph} {a b x y : Address} (h : (g.addUnlessLoop a b).Reads x y) :
    g.Reads x y ∨ (x = a ∧ y = b) := by
  unfold Graph.addUnlessLoop at h
  split at h
  · exact Or.inl h
  · exact reads_add.mp h

theorem Reads.addUnlessLoop {g : Graph} {x y : Address} (h : g.Reads x y) (a b : Address) :
    (g.addUnlessLoop a b).Reads x y := by
  unfold Graph.addUnlessLoop
  split
  · exact h
  · exact reads_add.mpr (Or.inl h)

theorem addUnlessLoop_reads_or_leads (g : Graph) (a b : Address) :
    (g.addUnlessLoop a b).Reads a b ∨ ReflTransGen g.Reads b a := by
  unfold Graph.addUnlessLoop
  split
  next h => exact Or.inr (closesLoop_iff.mp h)
  next => exact Or.inl (reads_add.mpr (Or.inr ⟨rfl, rfl⟩))

/-- Add links one after another, each unless it closes a loop. -/
def addAll (g : Graph) (links : List (Address × Address)) : Graph :=
  links.foldl (fun g link => g.addUnlessLoop link.1 link.2) g

theorem Mirrored.addAll {g : Graph} (hg : g.Mirrored) (links : List (Address × Address)) :
    (g.addAll links).Mirrored := by
  induction links generalizing g with
  | nil => exact hg
  | cons link links ih => exact ih (hg.addUnlessLoop link.1 link.2)

theorem Acyclic.addAll {g : Graph} (hg : g.Acyclic) (links : List (Address × Address)) :
    (g.addAll links).Acyclic := by
  induction links generalizing g with
  | nil => exact hg
  | cons link links ih => exact ih (hg.addUnlessLoop link.1 link.2)

theorem Reads.addAll {g : Graph} {x y : Address} (h : g.Reads x y)
    (links : List (Address × Address)) : (g.addAll links).Reads x y := by
  induction links generalizing g with
  | nil => exact h
  | cons link links ih => exact ih (h.addUnlessLoop link.1 link.2)

theorem reads_addAll {g : Graph} {x y : Address} {links : List (Address × Address)}
    (h : (g.addAll links).Reads x y) : g.Reads x y ∨ (x, y) ∈ links := by
  induction links generalizing g with
  | nil => exact Or.inl h
  | cons link links ih =>
    rcases ih h with hg | hmem
    · rcases reads_addUnlessLoop hg with hg | ⟨rfl, rfl⟩
      · exact Or.inl hg
      · exact Or.inr List.mem_cons_self
    · exact Or.inr (List.mem_cons_of_mem _ hmem)

/-- Every link that was to be added is there or would close a loop in the end. -/
theorem addAll_reads_or_leads {g : Graph} {x y : Address} {links : List (Address × Address)}
    (h : (x, y) ∈ links) :
    (g.addAll links).Reads x y ∨ ReflTransGen (g.addAll links).Reads y x := by
  induction links generalizing g with
  | nil => simp at h
  | cons link links ih =>
    rcases List.mem_cons.mp h with rfl | h
    · have hkept : ∀ a b, g.Reads a b → (g.addAll ((x, y) :: links)).Reads a b :=
        fun a b hab => hab.addAll _
      rcases addUnlessLoop_reads_or_leads g x y with hadd | hlead
      · exact Or.inl (hadd.addAll links)
      · exact Or.inr (ReflTransGen.mono hkept y x hlead)
    · exact ih h

/-- Links that form no loop among themselves are all added. -/
theorem addAll_reads_of_loopFree {links : List (Address × Address)}
    (hfree : ∀ a, ¬ TransGen (fun x y => (x, y) ∈ links) a a) {x y : Address}
    (h : (x, y) ∈ links) : (empty.addAll links).Reads x y := by
  rcases addAll_reads_or_leads (g := empty) h with hreads | hlead
  · exact hreads
  · have hsub : ∀ a b, (empty.addAll links).Reads a b → (a, b) ∈ links :=
      fun a b hab => (reads_addAll hab).resolve_left not_reads_empty
    have hback : ReflTransGen (fun x y => (x, y) ∈ links) y x := ReflTransGen.mono hsub y x hlead
    exact absurd (TransGen.head' h hback) (hfree x)

end Recalc.Graph
