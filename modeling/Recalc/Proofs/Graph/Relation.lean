import Mathlib.Data.Finset.Card
import Recalc.Proofs.Graph.Canonical
import Recalc.Proofs.Graph.Changes

namespace Recalc

namespace Links

variable {m : Links} {a b x : Address}

/-- The links of a map one by one. -/
def pairs (m : Links) : List (Address × Address) :=
  m.toList.flatMap fun entry => entry.2.toList.map fun b => (entry.1, b)

theorem mem_pairs : (a, b) ∈ m.pairs ↔ m.Linked a b := by
  simp only [pairs, List.mem_flatMap, List.mem_map, Prod.exists, Prod.mk.injEq,
    Std.ExtTreeMap.mem_toList_iff_getElem?_eq_some, Std.ExtTreeSet.mem_toList]
  unfold Linked of
  rw [Std.ExtTreeMap.getD_eq_getD_getElem?]
  constructor
  · rintro ⟨_, s, hs, _, hb, rfl, rfl⟩
    rwa [hs]
  · intro hb
    cases hs : m[a]? with
    | none => simp [hs] at hb
    | some s => exact ⟨a, s, hs, b, by simpa [hs] using hb, rfl, rfl⟩

theorem nodup_pairs (m : Links) : m.pairs.Nodup := by
  have hsecond : ∀ (x : Address) (s : AddressSet), (s.toList.map fun b => (x, b)).Nodup := by
    intro x s
    have hlist : s.toList.Nodup :=
      Std.ExtTreeSet.distinct_toList.imp fun hne heq => hne (Std.compare_eq_iff_eq.mpr heq)
    exact hlist.map fun _ _ heq => (Prod.mk.inj heq).2
  refine List.nodup_flatMap.mpr ⟨fun entry _ => hsecond entry.1 entry.2, ?_⟩
  refine Std.ExtTreeMap.distinct_keys_toList.imp fun {first second} hne => ?_
  intro pair hfirst hsecond
  obtain ⟨b, _, rfl⟩ := List.mem_map.mp hfirst
  obtain ⟨c, _, heq⟩ := List.mem_map.mp hsecond
  exact hne (Std.compare_eq_iff_eq.mpr (Prod.mk.inj heq).1.symm)

theorem length_pairs (m : Links) : m.pairs.length = m.count := by
  rw [pairs, List.length_flatMap, count_eq_length, List.length_flatMap]
  simp only [List.length_map]

theorem getElem?_unlink : (m.unlink a b)[x]? =
    if a = x then if ((m.of a).erase b).isEmpty then none else some ((m.of a).erase b)
    else m[x]? := by
  unfold unlink
  dsimp only
  split
  next => simp only [Std.ExtTreeMap.getElem?_erase, Std.compare_eq_iff_eq]
  next => simp only [Std.ExtTreeMap.getElem?_insert, Std.compare_eq_iff_eq]

theorem of_unlink_of_ne (h : a ≠ x) : (m.unlink a b).of x = m.of x := by
  unfold of
  rw [Std.ExtTreeMap.getD_eq_getD_getElem?, Std.ExtTreeMap.getD_eq_getD_getElem?, getElem?_unlink,
    if_neg h]

theorem unlink_comm (m : Links) (a c b : Address) :
    (m.unlink a b).unlink c b = (m.unlink c b).unlink a b := by
  by_cases hac : a = c
  · rw [hac]
  · refine Std.ExtTreeMap.ext_getElem? fun x => ?_
    simp only [getElem?_unlink, of_unlink_of_ne hac, of_unlink_of_ne (Ne.symm hac)]
    by_cases hax : a = x
    · have hcx : c ≠ x := fun hcx => hac (hax.trans hcx.symm)
      simp only [hax, hcx, ↓reduceIte]
    · simp only [hax, ↓reduceIte]

/-- It does not matter in which order the links are taken out. -/
theorem foldl_unlink_perm {as bs : List Address} (h : as.Perm bs) (m : Links) (b : Address) :
    as.foldl (fun m a => m.unlink a b) m = bs.foldl (fun m a => m.unlink a b) m :=
  h.foldl_eq' (fun a _ c _ m => unlink_comm m a c b) m

end Links

namespace Graph

/-- What a change makes of the links, each of them a reader with the cell that it reads. -/
def Change.apply : Change → Finset (Address × Address) → Finset (Address × Address)
  | .add reader read, links => insert (reader, read) links
  | .removeOutgoing a, links => links.filter fun link => link.1 ≠ a
  | .removeAll a, links => links.filter fun link => link.1 ≠ a ∧ link.2 ≠ a

/-- The links that some changes, one after another, leave. -/
def linksAfter (changes : List Change) : Finset (Address × Address) :=
  changes.foldl (fun links c => c.apply links) ∅

/-- A change for which the sets of linked cells are gone through in some order. -/
inductive Makes : Graph → Change → Graph → Prop
  | add {g : Graph} {reader read : Address} : Makes g (.add reader read) (g.add reader read)
  | removeOutgoing {g : Graph} {a : Address} {reads : List Address}
      (hreads : reads.Perm (g.precedents.of a).toList) :
      Makes g (.removeOutgoing a)
        ⟨g.precedents.erase a, reads.foldl (fun m read => m.unlink read a) g.dependents⟩
  | removeAll {g h : Graph} {a : Address} {readers : List Address}
      (hout : Makes g (.removeOutgoing a) h) (hreaders : readers.Perm (h.dependents.of a).toList) :
      Makes g (.removeAll a)
        ⟨readers.foldl (fun m reader => m.unlink reader a) h.precedents, h.dependents.erase a⟩

inductive MakesAll : Graph → List Change → Graph → Prop
  | nil {g : Graph} : MakesAll g [] g
  | cons {g h k : Graph} {c : Change} {changes : List Change} (hfirst : Makes g c h)
      (hrest : MakesAll h changes k) : MakesAll g (c :: changes) k

variable {g h : Graph} {c : Change} {changes : List Change} {a b : Address}
  {links : Finset (Address × Address)}

theorem makes_iff : Makes g c h ↔ h = g.change c := by
  constructor
  · intro hmakes
    have hout : ∀ {h : Graph} {a : Address}, Makes g (.removeOutgoing a) h →
        h = g.removeOutgoing a := by
      intro h a hmakes
      cases hmakes with
      | removeOutgoing hreads =>
        rw [Links.foldl_unlink_perm hreads]
        rfl
    cases hmakes with
    | add => rfl
    | removeOutgoing hreads => exact hout (.removeOutgoing hreads)
    | removeAll hfirst hreaders =>
      rw [Links.foldl_unlink_perm hreaders, hout hfirst]
      rfl
  · rintro rfl
    cases c with
    | add => exact .add
    | removeOutgoing a => exact .removeOutgoing (.refl _)
    | removeAll a => exact .removeAll (.removeOutgoing (.refl _)) (.refl _)

theorem makesAll_iff : MakesAll g changes h ↔ h = changes.foldl change g := by
  constructor
  · intro hmakes
    induction hmakes with
    | nil => rfl
    | cons hfirst _ ih => rw [ih, makes_iff.mp hfirst, List.foldl_cons]
  · rintro rfl
    induction changes generalizing g with
    | nil => exact .nil
    | cons c changes ih => exact .cons (makes_iff.mpr rfl) ih

/-- The graph holds the links and nothing else, told alike from both ends. -/
structure Represents (g : Graph) (links : Finset (Address × Address)) : Prop where
  reads_iff : ∀ a b, g.Reads a b ↔ (a, b) ∈ links
  mirrored : g.Mirrored
  trimmed : g.Trimmed

theorem represents_empty : empty.Represents ∅ where
  reads_iff a b := by simp [not_reads_empty]
  mirrored := mirrored_empty
  trimmed := trimmed_empty

theorem Trimmed.removeAll (hg : g.Trimmed) (a : Address) : (g.removeAll a).Trimmed :=
  ⟨(hg.removeOutgoing a).precedents.foldl_unlink a _, (hg.removeOutgoing a).dependents.erase a⟩

theorem Represents.change (hg : g.Represents links) (c : Change) :
    (g.change c).Represents (c.apply links) where
  mirrored := hg.mirrored.change c
  reads_iff x y := by
    cases c with
    | add reader read =>
      rw [Graph.change, reads_add, hg.reads_iff, Change.apply, Finset.mem_insert, Prod.mk.injEq,
        or_comm]
    | removeOutgoing a =>
      rw [Graph.change, reads_removeOutgoing, hg.reads_iff, Change.apply, Finset.mem_filter,
        and_comm]
    | removeAll a =>
      rw [Graph.change, reads_removeAll hg.mirrored, hg.reads_iff, Change.apply, Finset.mem_filter]
  trimmed := by
    cases c with
    | add reader read => exact hg.trimmed.add reader read
    | removeOutgoing a => exact hg.trimmed.removeOutgoing a
    | removeAll a => exact hg.trimmed.removeAll a

theorem Represents.foldl_change (hg : g.Represents links) (changes : List Change) :
    (changes.foldl Graph.change g).Represents
      (changes.foldl (fun links c => c.apply links) links) := by
  induction changes generalizing g links with
  | nil => exact hg
  | cons c changes ih => exact ih (hg.change c)

theorem represents_build (changes : List Change) :
    (build changes).Represents (linksAfter changes) :=
  represents_empty.foldl_change changes

theorem Represents.edgeCount_eq (hg : g.Represents links) : g.edgeCount = links.card := by
  have hlinks : links = g.precedents.pairs.toFinset := by
    ext ⟨a, b⟩
    rw [List.mem_toFinset, Links.mem_pairs, ← hg.reads_iff]
    rfl
  rw [hlinks, List.toFinset_card_of_nodup (Links.nodup_pairs _), Links.length_pairs]
  rfl

theorem Represents.eq_iff {others : Finset (Address × Address)} (hg : g.Represents links)
    (hh : h.Represents others) : g = h ↔ links = others := by
  constructor
  · rintro rfl
    ext ⟨a, b⟩
    rw [← hg.reads_iff, hh.reads_iff]
  · rintro rfl
    exact eq_of_reads hg.trimmed hh.trimmed hg.mirrored hh.mirrored fun a b => by
      rw [hg.reads_iff, hh.reads_iff]

/-- However a graph came about, both of its ends tell the same finite relation, which the changes
alone determine, whatever the order in which sets are gone through. Neither end keeps an empty
entry, so that graphs with the same links are equal. -/
theorem build_represents_linksAfter (changes : List Change) :
    (∀ g, MakesAll empty changes g ↔ g = build changes) ∧
      (∀ a b, b ∈ (build changes).precedents.of a ↔ (a, b) ∈ linksAfter changes) ∧
      (∀ a b, a ∈ (build changes).dependents.of b ↔ (a, b) ∈ linksAfter changes) ∧
      (build changes).edgeCount = (linksAfter changes).card ∧
      (build changes).isConsistent = true ∧
      (∀ a : Address,
        (build changes).precedents[a]? ≠ some ∅ ∧ (build changes).dependents[a]? ≠ some ∅) ∧
      ∀ others, build changes = build others ↔ linksAfter changes = linksAfter others := by
  have hbuild := represents_build changes
  refine ⟨fun g => makesAll_iff, hbuild.reads_iff, fun a b => ?_, hbuild.edgeCount_eq,
    isConsistent_iff.mpr hbuild.mirrored, fun a => ⟨hbuild.trimmed.precedents a,
      hbuild.trimmed.dependents a⟩, fun others => hbuild.eq_iff (represents_build others)⟩
  exact (hbuild.mirrored a b).trans (hbuild.reads_iff a b)

end Graph

end Recalc
