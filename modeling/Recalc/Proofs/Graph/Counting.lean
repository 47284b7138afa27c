import Recalc.Proofs.Graph.Leftover
import Recalc.Proofs.Graph.Search

namespace Recalc.Graph

open Relation

/-- For each member the number of those that it still waits for, also where that is none, and the
cells that are free. -/
structure Tally where
  counts : AddressMap Nat
  queue : List Address

/-- Take one from the count of a reader, which joins the queue when nothing is left. Nothing can be
taken from zero. -/
def Tally.countDown (t : Tally) (reader : Address) : Option Tally :=
  match t.counts[reader]? with
  | none => some t
  | some 0 => none
  | some (n + 1) =>
    some ⟨t.counts.insert reader n, if n = 0 then t.queue ++ [reader] else t.queue⟩

def readersWithin (g : Graph) (l : g.dependents.Listing) (members : AddressSet) (a : Address) :
    List Address :=
  ((l.list a).filter (· ∈ members)).mergeSort fun x y => (compare x y).isLE

/-- The cells in the order in which they leave the queue, and the counts in the end. There is no
result where a count would fall below zero, or where some number of turns is not enough. -/
def emptyQueue (g : Graph) (l : g.dependents.Listing) (members : AddressSet) :
    Nat → Tally → Option (List Address × AddressMap Nat)
  | 0, _ => none
  | _ + 1, ⟨counts, []⟩ => some ([], counts)
  | turns + 1, ⟨counts, a :: queue⟩ => do
    let t ← (g.readersWithin l members a).foldlM Tally.countDown ⟨counts, queue⟩
    let (order, left) ← emptyQueue g l members turns t
    return (a :: order, left)

def startTally (g : Graph) (members : AddressSet) : Tally :=
  let counts : AddressMap Nat := .ofList (members.toList.map fun a => (a, g.pending members a))
  ⟨counts, members.toList.filter fun a => counts[a]? = some 0⟩

def evaluationOrderInPlace (g : Graph) (l : g.dependents.Listing) (turns : Nat)
    (cells : List Address) : Option EvaluationOrder := do
  let members : AddressSet := .ofList cells
  let (order, left) ← g.emptyQueue l members turns (g.startTally members)
  return ⟨order, members.toList.filter fun a => left[a]?.any (0 < ·)⟩

variable {g : Graph} {members : AddressSet} {done queue : List Address} {waiting : Waiting}

theorem readersWithin_eq (l : g.dependents.Listing) (members : AddressSet) (a : Address) :
    g.readersWithin l members a = (g.dependents.of a).toList.filter (· ∈ members) := by
  have htotal : ∀ x y : Address, ((compare x y).isLE || (compare y x).isLE) = true := by
    intro x y
    have hswap : compare x y = (compare y x).swap := Std.OrientedCmp.eq_swap
    rw [hswap]
    cases compare y x with
    | lt | eq | gt => rfl
  have hsorted : (g.readersWithin l members a).Pairwise fun x y => (compare x y).isLE :=
    List.pairwise_mergeSort (fun _ _ _ => Std.TransCmp.isLE_trans) htotal _
  have hperm : (g.readersWithin l members a).Perm
      ((g.dependents.of a).toList.filter (· ∈ members)) :=
    (List.mergeSort_perm _ _).trans ((l.perm a).filter _)
  have hordered : ((g.dependents.of a).toList.filter (· ∈ members)).Pairwise
      fun x y => (compare x y).isLE := by
    refine List.Pairwise.filter _ (Std.ExtTreeSet.ordered_toList.imp fun hlt => ?_)
    rw [hlt]
    rfl
  refine hperm.eq_of_pairwise (fun x y _ _ hxy hyx => ?_) hsorted hordered
  exact Std.compare_eq_iff_eq.mp (Std.OrientedCmp.isLE_antisymm hxy hyx)

theorem countDown_of_pos {t : Tally} {a : Address} {n : Nat} (hn : t.counts[a]? = some (n + 1)) :
    t.countDown a = some ⟨t.counts.insert a n, if n = 0 then t.queue ++ [a] else t.queue⟩ := by
  rw [Tally.countDown, hn]

/-- Readers that all wait for something can be counted down. -/
theorem foldlM_countDown {readers : List Address} (hnodup : readers.Nodup) {t : Tally}
    (hpos : ∀ x ∈ readers, ∃ n, t.counts[x]? = some (n + 1)) :
    ∃ counts, readers.foldlM Tally.countDown t =
        some ⟨counts, t.queue ++ readers.filter fun x => t.counts[x]? = some 1⟩ ∧
      ∀ x, counts[x]? = if x ∈ readers then t.counts[x]?.map (· - 1) else t.counts[x]? := by
  induction readers generalizing t with
  | nil => exact ⟨t.counts, by simp, by simp⟩
  | cons a readers ih =>
    obtain ⟨ha, hrest⟩ := List.nodup_cons.mp hnodup
    obtain ⟨n, hn⟩ := hpos a List.mem_cons_self
    have hother : ∀ x ∈ readers, (t.counts.insert a n)[x]? = t.counts[x]? := by
      intro x hx
      have hne : a ≠ x := by
        rintro rfl
        exact ha hx
      simp [Std.ExtTreeMap.getElem?_insert, hne]
    obtain ⟨counts, hfold, hcounts⟩ :=
      ih (t := ⟨t.counts.insert a n, if n = 0 then t.queue ++ [a] else t.queue⟩) hrest
        fun x hx => by
          rw [hother x hx]
          exact hpos x (List.mem_cons_of_mem _ hx)
    refine ⟨counts, ?_, fun x => ?_⟩
    · have hfilter : readers.filter (fun x => (t.counts.insert a n)[x]? = some 1) =
          readers.filter fun x => t.counts[x]? = some 1 :=
        List.filter_congr fun x hx => by rw [hother x hx]
      rw [List.foldlM_cons, countDown_of_pos hn, Option.bind_eq_bind, Option.bind_some, hfold,
        hfilter, List.filter_cons, hn]
      by_cases hzero : n = 0
      · simp [hzero]
      · simp [hzero]
    · rw [hcounts]
      by_cases hx : x = a
      · subst hx
        simp [ha, hn]
      · have hne : a ≠ x := Ne.symm hx
        simp [hx, Std.ExtTreeMap.getElem?_insert, hne]

/-- What holds whenever the counters are looked at: each is the number of members that the cell
still waits for, and none of the cells that were taken waits for any. -/
structure TallyState (g : Graph) (members : AddressSet) (done : List Address) (t : Tally)
    (waiting : Waiting) : Prop where
  state : LoopState g members done t.queue waiting
  settled : ∀ x ∈ done, g.unmet members done x = 0
  counts : ∀ x, t.counts[x]? = if x ∈ members then some (g.unmet members done x) else none

theorem TallyState.waiting_iff {t : Tally} (h : TallyState g members done t waiting) {x : Address}
    {n : Nat} : waiting[x]? = some n ↔ 0 < n ∧ t.counts[x]? = some n := by
  rw [h.counts]
  constructor
  · intro hn
    have hx : x ∈ members := (h.state.mem_iff x).mpr (Or.inr (Or.inr ⟨n, hn⟩))
    obtain ⟨hpos, hcount⟩ := h.state.waits x n hn
    rw [if_pos hx, hcount]
    exact ⟨hcount ▸ hpos, rfl⟩
  · rintro ⟨hpos, hn⟩
    split at hn
    next hx =>
      have hcount := Option.some.inj hn
      rcases (h.state.mem_iff x).mp hx with hdone | hqueue | ⟨m, hm⟩
      · have := h.settled x hdone
        omega
      · have := h.state.free x hqueue
        omega
      · have := (h.state.waits x m hm).2
        rw [hm, this, hcount]
    next => cases hn

/-- The readers whose last count is taken are those that no longer wait. -/
theorem TallyState.freed_eq {t : Tally} (h : TallyState g members done t waiting)
    {readers : List Address} (hnodup : readers.Nodup) :
    (readers.filter (· ∈ members)).filter (fun x => t.counts[x]? = some 1) =
      (readers.foldl release (waiting, [])).2 := by
  rw [foldl_release_freed hnodup, List.nil_append, List.filter_filter]
  refine List.filter_congr fun x _ => ?_
  have hone : waiting[x]? = some 1 ↔ 0 < 1 ∧ t.counts[x]? = some 1 := h.waiting_iff
  have hmember : t.counts[x]? = some 1 → x ∈ members := by
    intro hx
    by_contra hnot
    rw [h.counts x, if_neg hnot] at hx
    cases hx
  have hany : waiting[x]?.any (· ≤ 1) = true ↔ waiting[x]? = some 1 := by
    cases hn : waiting[x]? with
    | none => simp
    | some n =>
      have := (h.state.waits x n hn).1
      simp only [Option.any_some, decide_eq_true_eq, Option.some.injEq]
      omega
  rw [Bool.eq_iff_iff, hany, hone, Bool.and_eq_true, decide_eq_true_iff, decide_eq_true_iff]
  exact ⟨fun hx => ⟨Nat.one_pos, hx.1⟩, fun hx => ⟨hx.2, hmember hx.2⟩⟩

theorem mem_readers_within (hg : g.Mirrored) {a x : Address} :
    x ∈ (g.dependents.of a).toList.filter (· ∈ members) ↔ g.Reads x a ∧ x ∈ members := by
  rw [List.mem_filter, mem_readers hg, decide_eq_true_iff]

/-- Taking one from the readers of a cell is what it means for that cell to be done. -/
theorem TallyState.counts_step (hg : g.Mirrored) {t : Tally} {a : Address}
    (h : TallyState g members done t waiting) (ha : a ∈ members) (hdone : a ∉ done)
    (x : Address) :
    (if x ∈ (g.dependents.of a).toList.filter (· ∈ members) then t.counts[x]?.map (· - 1)
      else t.counts[x]?) =
      if x ∈ members then some (g.unmet members (done ++ [a]) x) else none := by
  rw [h.counts x]
  by_cases hmember : x ∈ members
  · by_cases hreads : g.Reads x a
    · have hmet := unmet_snoc_of_reads ha hdone hreads
      rw [if_pos ((mem_readers_within hg).mpr ⟨hreads, hmember⟩), if_pos hmember, if_pos hmember,
        Option.map_some, Option.some.injEq]
      omega
    · rw [if_neg fun hx => hreads ((mem_readers_within hg).mp hx).1, if_pos hmember,
        if_pos hmember, unmet_snoc_of_not_reads hreads]
  · rw [if_neg fun hx => hmember ((mem_readers_within hg).mp hx).2, if_neg hmember, if_neg hmember]

/-- A turn counts down without falling below zero, and frees the cells that the loop frees. -/
theorem TallyState.step {a : Address} {counts : AddressMap Nat} (hg : g.Mirrored)
    (l : g.dependents.Listing) (h : TallyState g members done ⟨counts, a :: queue⟩ waiting) :
    ∃ t, (g.readersWithin l members a).foldlM Tally.countDown ⟨counts, queue⟩ = some t ∧
      t.queue = queue ++ ((g.dependents.of a).toList.foldl release (waiting, [])).2 ∧
      TallyState g members (done ++ [a]) t
        ((g.dependents.of a).toList.foldl release (waiting, [])).1 := by
  have ha : a ∈ members := (h.state.mem_iff a).mpr (Or.inr (Or.inl List.mem_cons_self))
  have hnodup := nodup_toList (g.dependents.of a)
  -- A reader of `a` still waits for `a` itself, so that its count is not zero.
  have hpos : ∀ x ∈ (g.dependents.of a).toList.filter (· ∈ members),
      ∃ n, counts[x]? = some (n + 1) := by
    intro x hx
    obtain ⟨hreads, hmember⟩ := (mem_readers_within hg).mp hx
    refine ⟨g.unmet members (done ++ [a]) x, ?_⟩
    rw [unmet_snoc_of_reads ha h.state.not_mem_done hreads]
    exact (h.counts x).trans (if_pos hmember)
  obtain ⟨left, hfold, hleft⟩ :=
    foldlM_countDown (t := ⟨counts, queue⟩) (hnodup.filter (· ∈ members)) hpos
  have hfreed := h.freed_eq hnodup
  dsimp only at hfold hfreed
  rw [readersWithin_eq, hfold, hfreed]
  refine ⟨_, rfl, rfl, h.state.step hg, ?_, ?_⟩
  · intro x hx
    rw [unmet_eq_zero_iff]
    intro b hb hr
    have hzero : g.unmet members done x = 0 := by
      rcases List.mem_append.mp hx with hx | hx
      · exact h.settled x hx
      · obtain rfl := List.mem_singleton.mp hx
        exact h.state.free x List.mem_cons_self
    exact List.mem_append_left _ (unmet_eq_zero_iff.mp hzero b hb hr)
  · intro x
    exact (hleft x).trans (h.counts_step hg ha h.state.not_mem_done x)

theorem exists_emptyQueue (hg : g.Mirrored) (l : g.dependents.Listing) {t : Tally} {turns : Nat}
    (h : TallyState g members done t waiting) (hturns : waiting.size + t.queue.length < turns) :
    ∃ left, g.emptyQueue l members turns t =
        some ((g.evaluationLoop waiting t.queue).order, left) ∧
      ∀ x, x ∈ (g.evaluationLoop waiting t.queue).stalled ↔ left[x]?.any (0 < ·) = true := by
  induction turns generalizing done t waiting with
  | zero => omega
  | succ turns ih =>
    obtain ⟨counts, queue⟩ := t
    cases queue with
    | nil =>
      refine ⟨counts, by rw [emptyQueue, evaluationLoop], fun x => ?_⟩
      have hkey : x ∈ waiting.keys ↔ ∃ n, waiting[x]? = some n := by
        rw [Std.ExtTreeMap.mem_keys, Std.ExtTreeMap.mem_iff_isSome_getElem?,
          Option.isSome_iff_exists]
      rw [evaluationLoop, hkey]
      simp only [h.waiting_iff]
      cases counts[x]? with
      | none => simp
      | some n => simp
    | cons a queue =>
      obtain ⟨t, hfold, hqueue, hstep⟩ := h.step hg l
      have hsize := foldl_release_size (waiting, []) (g.dependents.of a).toList
      obtain ⟨left, hleft, hstalled⟩ := ih hstep (by
        rw [hqueue, List.length_append]
        simp only [List.length_nil, List.length_cons] at hsize hturns
        omega)
      rw [hqueue] at hleft hstalled
      refine ⟨left, ?_, ?_⟩
      · rw [emptyQueue, hfold, evaluationLoop]
        simp [hleft]
      · rw [evaluationLoop]
        exact hstalled

theorem getElem?_startTally (g : Graph) (members : AddressSet) (x : Address) :
    (g.startTally members).counts[x]? =
      if x ∈ members then some (g.unmet members [] x) else none := by
  have hdistinct : (members.toList.map fun a => (a, g.pending members a)).Pairwise
      fun p q => p.1 ≠ q.1 := List.pairwise_map.mpr (nodup_toList members)
  refine Option.ext fun n => ?_
  rw [startTally, getElem?_ofList_eq_some_iff hdistinct, List.mem_map]
  simp only [Prod.mk.injEq, unmet_nil, Std.ExtTreeSet.mem_toList]
  by_cases hx : x ∈ members
  · rw [if_pos hx, Option.some.injEq]
    constructor
    · rintro ⟨_, _, rfl, hn⟩
      exact hn
    · exact fun hn => ⟨x, hx, rfl, hn⟩
  · rw [if_neg hx]
    simp only [reduceCtorEq, iff_false]
    rintro ⟨_, hmember, rfl, _⟩
    exact hx hmember

theorem queue_startTally (g : Graph) (members : AddressSet) :
    (g.startTally members).queue =
      ((members.toList.map fun a => (a, g.pending members a)).filter
        fun entry => entry.2 = 0).map (·.1) := by
  rw [List.filter_map, List.map_map]
  refine (List.filter_congr fun a ha => ?_).trans (List.map_id _).symm
  have hcount := getElem?_startTally g members a
  rw [if_pos (Std.ExtTreeSet.mem_toList.mp ha), unmet_nil] at hcount
  change decide ((g.startTally members).counts[a]? = some 0) = _
  rw [hcount]
  simp

def startWaiting (g : Graph) (members : AddressSet) : Waiting :=
  .ofList ((members.toList.map fun a => (a, g.pending members a)).filter fun entry => entry.2 ≠ 0)

theorem evaluationOrder_eq (g : Graph) (cells : List Address) :
    g.evaluationOrder cells = g.evaluationLoop (g.startWaiting (.ofList cells))
      (g.startTally (.ofList cells)).queue := by
  rw [queue_startTally]
  rfl

theorem tallyState_start (g : Graph) (members : AddressSet) :
    TallyState g members [] (g.startTally members) (g.startWaiting members) where
  state := by
    rw [queue_startTally]
    exact loopState_start g members
  settled := by simp
  counts := getElem?_startTally g members

theorem size_start_le (g : Graph) (members : AddressSet) :
    (g.startWaiting members).size + (g.startTally members).queue.length ≤ members.size := by
  rw [queue_startTally, startWaiting]
  generalize hcounted : (members.toList.map fun a => (a, g.pending members a)) = counted
  have hlength : counted.length = members.size := by
    rw [← hcounted, List.length_map, Std.ExtTreeSet.length_toList]
  have hwaiting : (Std.ExtTreeMap.ofList (counted.filter fun entry => entry.2 ≠ 0) :
      Waiting).size ≤ (counted.filter fun entry => entry.2 ≠ 0).length :=
    Std.ExtTreeMap.size_ofList_le
  have hparts : counted.length = (counted.filter fun entry => entry.2 = 0).length +
      (counted.filter fun entry => entry.2 ≠ 0).length := by
    simpa using List.length_eq_length_filter_add fun entry : Address × Nat => decide (entry.2 = 0)
  rw [List.length_map]
  omega

/-- Counting in place gives the same order, in no more turns than there are cells. -/
theorem evaluationOrderInPlace_eq (hg : g.Mirrored) (l : g.dependents.Listing) {turns : Nat}
    {cells : List Address} (hturns : cells.length < turns) :
    g.evaluationOrderInPlace l turns cells = some (g.evaluationOrder cells) := by
  have hsize := size_start_le g (.ofList cells)
  have hmembers : (Std.ExtTreeSet.ofList cells : AddressSet).size ≤ cells.length :=
    Std.ExtTreeSet.size_ofList_le
  have hstart := tallyState_start g (.ofList cells)
  have henough : _ < turns := Nat.lt_of_le_of_lt (Nat.le_trans hsize hmembers) hturns
  obtain ⟨left, hleft, hstalled⟩ := exists_emptyQueue hg l hstart henough
  rw [← evaluationOrder_eq] at hleft hstalled
  have hlast : (Std.ExtTreeSet.ofList cells : AddressSet).toList.filter
      (fun a => left[a]?.any (0 < ·)) = (g.evaluationOrder cells).stalled := by
    refine Address.eq_of_ordered (List.Pairwise.filter _ Std.ExtTreeSet.ordered_toList)
      (pairwise_stalled g _ _) fun x => ?_
    rw [List.mem_filter, ← hstalled, Std.ExtTreeSet.mem_toList, mem_members]
    exact and_iff_right_of_imp fun hx => (mem_evaluationOrder hg).mpr (Or.inr hx)
  rw [evaluationOrderInPlace]
  simp only [hleft, Option.bind_eq_bind, Option.bind_some, hlast]
  rfl

/-- However a graph came about, loops included, its cells are put in order as they should be, and no
counter is ever taken below zero on the way. -/
theorem evaluationOrder_sorts_and_counts (changes : List Change) (cells : List Address) :
    (build changes).Sorts cells ((build changes).evaluationOrder cells) ∧
      ∀ (l : (build changes).dependents.Listing) (turns : Nat), cells.length < turns →
        (build changes).evaluationOrderInPlace l turns cells =
          some ((build changes).evaluationOrder cells) :=
  ⟨sorts_evaluationOrder (mirrored_build changes) cells,
    fun l _ hturns => evaluationOrderInPlace_eq (mirrored_build changes) l hturns⟩

/-- A cell that reads nothing gets its place, the cells of a knot and what reads them do not. -/
theorem evaluationOrder_sorts_and_counts_knot :
    [(⟨0, 2⟩ : Address), ⟨0, 3⟩, ⟨0, 1⟩, ⟨0, 0⟩].length < 5 ∧
      ∃ o, (build knot).evaluationOrderInPlace (.backwards _) 5
          [⟨0, 2⟩, ⟨0, 3⟩, ⟨0, 1⟩, ⟨0, 0⟩] = some o ∧
        (⟨0, 2⟩ : Address) ∈ o.stalled ∧ (⟨0, 3⟩ : Address) ∉ o.stalled := by
  obtain ⟨hsorts, hcounts⟩ :=
    evaluationOrder_sorts_and_counts knot [⟨0, 2⟩, ⟨0, 3⟩, ⟨0, 1⟩, ⟨0, 0⟩]
  refine ⟨by decide, _, hcounts (.backwards _) 5 (by decide), ?_, ?_⟩
  · have hfirst : (build knot).ReadsWithin [⟨0, 2⟩, ⟨0, 3⟩, ⟨0, 1⟩, ⟨0, 0⟩] ⟨0, 0⟩ ⟨0, 1⟩ :=
      ⟨by decide, by decide, reads_knot.mpr (by decide)⟩
    have hsecond : (build knot).ReadsWithin [⟨0, 2⟩, ⟨0, 3⟩, ⟨0, 1⟩, ⟨0, 0⟩] ⟨0, 1⟩ ⟨0, 0⟩ :=
      ⟨by decide, by decide, reads_knot.mpr (by decide)⟩
    have hthird : (build knot).ReadsWithin [⟨0, 2⟩, ⟨0, 3⟩, ⟨0, 1⟩, ⟨0, 0⟩] ⟨0, 2⟩ ⟨0, 0⟩ :=
      ⟨by decide, by decide, reads_knot.mpr (by decide)⟩
    exact (hsorts.stalled_iff _).mpr
      ⟨by decide, ⟨0, 0⟩, .single hthird, .tail (.single hfirst) hsecond⟩
  · rw [hsorts.stalled_iff]
    rintro ⟨_, hloop⟩
    obtain ⟨b, ⟨_, _, hreads⟩, _⟩ := hloop.exists_step
    simp [reads_knot] at hreads

end Recalc.Graph
