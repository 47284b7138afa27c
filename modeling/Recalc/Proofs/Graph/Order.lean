import Mathlib.Data.List.Nodup
import Recalc.Graph.Order
import Recalc.Proofs.Graph.Loops

namespace Recalc

theorem nodup_toList (s : AddressSet) : s.toList.Nodup := by
  have hdistinct := s.distinct_toList
  refine hdistinct.imp ?_
  intro a b h heq
  exact h (Std.compare_eq_iff_eq.mpr heq)

theorem getElem?_ofList_eq_some_iff {β : Type} {l : List (Address × β)}
    (hdistinct : l.Pairwise fun p q => p.1 ≠ q.1) {a : Address} {v : β} :
    (Std.ExtTreeMap.ofList l : AddressMap β)[a]? = some v ↔ (a, v) ∈ l := by
  have hget : ∀ w, (a, w) ∈ l → (Std.ExtTreeMap.ofList l : AddressMap β)[a]? = some w := by
    intro w hw
    refine Std.ExtTreeMap.getElem?_ofList_of_mem Std.compare_self (hdistinct.imp ?_) hw
    intro p q hne heq
    exact hne (Std.compare_eq_iff_eq.mp heq)
  constructor
  · intro h
    have hkey : a ∈ (Std.ExtTreeMap.ofList l : AddressMap β) :=
      Std.ExtTreeMap.mem_iff_isSome_getElem?.mpr (by simp [h])
    rw [Std.ExtTreeMap.mem_ofList, List.contains_eq_mem, decide_eq_true_iff, List.mem_map] at hkey
    obtain ⟨⟨x, w⟩, hw, rfl⟩ := hkey
    obtain rfl := Option.some.inj (h.symm.trans (hget w hw))
    exact hw
  · exact hget v

namespace Graph

open Relation

/-- The number of `members` that `a` reads and that are not yet `done`. -/
def unmet (g : Graph) (members : AddressSet) (done : List Address) (a : Address) : Nat :=
  (g.precedents.of a).toList.countP fun b => b ∈ members ∧ b ∉ done

variable {g : Graph} {members : AddressSet} {done : List Address}

theorem unmet_nil {a : Address} : g.unmet members [] a = g.pending members a := by
  simp [unmet, pending, List.countP_eq_length_filter]

theorem unmet_eq_zero_iff {a : Address} :
    g.unmet members done a = 0 ↔ ∀ b ∈ members, g.Reads a b → b ∈ done := by
  simp only [unmet, List.countP_eq_zero, decide_eq_true_eq, Std.ExtTreeSet.mem_toList, not_and,
    not_not]
  exact ⟨fun h b hb hr => h b hr hb, fun h b hr hb => h b hb hr⟩

theorem unmet_snoc_of_not_reads {a x : Address} (hx : ¬ g.Reads x a) :
    g.unmet members (done ++ [a]) x = g.unmet members done x := by
  unfold unmet
  refine List.countP_congr fun b hb => ?_
  have hne : b ≠ a := by
    rintro rfl
    exact hx (Std.ExtTreeSet.mem_toList.mp hb)
  simp [hne]

theorem unmet_snoc_of_reads {a x : Address} (ha : a ∈ members) (hd : a ∉ done)
    (hx : g.Reads x a) : g.unmet members (done ++ [a]) x + 1 = g.unmet members done x := by
  have hnodup := nodup_toList (g.precedents.of x)
  have hmem : a ∈ (g.precedents.of x).toList := Std.ExtTreeSet.mem_toList.mpr hx
  have hrest : ∀ b ∈ (g.precedents.of x).toList.erase a, b ≠ a :=
    fun b hb => (hnodup.mem_erase_iff.mp hb).1
  unfold unmet
  rw [(List.perm_cons_erase hmem).countP_eq, (List.perm_cons_erase hmem).countP_eq,
    List.countP_cons, List.countP_cons]
  have hsame : ((g.precedents.of x).toList.erase a).countP
        (fun b => decide (b ∈ members ∧ b ∉ done ++ [a])) =
      ((g.precedents.of x).toList.erase a).countP (fun b => decide (b ∈ members ∧ b ∉ done)) := by
    refine List.countP_congr fun b hb => ?_
    simp [hrest b hb]
  rw [hsame]
  simp [ha, hd]

/-- What is left of a number when one is taken from it. -/
def fewer (n : Nat) : Option Nat := if n ≤ 1 then none else some (n - 1)

theorem release_getElem? {state : Waiting × List Address} {a x : Address} :
    (release state a).1[x]? = if x = a then state.1[a]?.bind fewer else state.1[x]? := by
  unfold release
  cases hn : state.1[a]? with
  | none =>
    by_cases hx : x = a
    · subst hx
      simp [hn]
    · simp [hx]
  | some n =>
    by_cases hle : n ≤ 1
    · by_cases hx : x = a
      · subst hx
        simp [fewer, hle]
      · simp [hle, hx, Std.ExtTreeMap.getElem?_erase, Ne.symm hx]
    · by_cases hx : x = a
      · subst hx
        simp [fewer, hle]
      · simp [hle, hx, Std.ExtTreeMap.getElem?_insert, Ne.symm hx]

theorem release_freed {state : Waiting × List Address} {a : Address} :
    (release state a).2 = state.2 ++ if state.1[a]?.any (· ≤ 1) then [a] else [] := by
  unfold release
  cases hn : state.1[a]? with
  | none => simp
  | some n =>
    by_cases hle : n ≤ 1
    · simp [hle]
    · simp [hle]

theorem foldl_release_getElem? {readers : List Address} (hnodup : readers.Nodup)
    {state : Waiting × List Address} {x : Address} :
    (readers.foldl release state).1[x]? =
      if x ∈ readers then state.1[x]?.bind fewer else state.1[x]? := by
  induction readers generalizing state with
  | nil => simp
  | cons a readers ih =>
    obtain ⟨ha, hrest⟩ := List.nodup_cons.mp hnodup
    rw [List.foldl_cons, ih hrest, release_getElem?]
    by_cases hx : x = a
    · subst hx
      simp [ha]
    · simp [hx]

theorem foldl_release_freed {readers : List Address} (hnodup : readers.Nodup)
    {state : Waiting × List Address} :
    (readers.foldl release state).2 =
      state.2 ++ readers.filter fun x => state.1[x]?.any (· ≤ 1) := by
  induction readers generalizing state with
  | nil => simp
  | cons a readers ih =>
    obtain ⟨ha, hrest⟩ := List.nodup_cons.mp hnodup
    have hsame : readers.filter (fun x => (release state a).1[x]?.any (· ≤ 1)) =
        readers.filter (fun x => state.1[x]?.any (· ≤ 1)) := by
      refine List.filter_congr fun x hx => ?_
      have hne : x ≠ a := by
        rintro rfl
        exact ha hx
      rw [release_getElem?, if_neg hne]
    rw [List.foldl_cons, ih hrest, hsame, release_freed, List.filter_cons, List.append_assoc]
    split <;> rfl

/-- What holds whenever the loop looks at its queue, after the cells in `done` were taken. -/
structure LoopState (g : Graph) (members : AddressSet) (done queue : List Address)
    (waiting : Waiting) : Prop where
  nodup : (done ++ queue).Nodup
  mem_iff : ∀ a, a ∈ members ↔ a ∈ done ∨ a ∈ queue ∨ ∃ n, waiting[a]? = some n
  waits : ∀ a n, waiting[a]? = some n → 0 < n ∧ n = g.unmet members done a
  apart : ∀ a n, waiting[a]? = some n → a ∉ done ∧ a ∉ queue
  free : ∀ a ∈ queue, g.unmet members done a = 0

theorem LoopState.not_mem_done {a : Address} {queue : List Address} {waiting : Waiting}
    (h : LoopState g members done (a :: queue) waiting) : a ∉ done :=
  fun hd => (List.nodup_append.mp h.nodup).2.2 a hd a List.mem_cons_self rfl

theorem mem_readers (hg : g.Mirrored) {a x : Address} :
    x ∈ (g.dependents.of a).toList ↔ g.Reads x a :=
  Std.ExtTreeSet.mem_toList.trans (hg x a)

/-- A cell is freed if `a` was the last that it waited for. -/
theorem LoopState.mem_freed {a x : Address} {queue : List Address} {waiting : Waiting}
    (hg : g.Mirrored) (h : LoopState g members done (a :: queue) waiting) :
    x ∈ ((g.dependents.of a).toList.foldl release (waiting, [])).2 ↔
      g.Reads x a ∧ waiting[x]? = some 1 := by
  rw [foldl_release_freed (nodup_toList _), List.nil_append, List.mem_filter, mem_readers hg]
  refine and_congr_right fun _ => ?_
  cases hn : waiting[x]? with
  | none => simp
  | some n =>
    have hpos := (h.waits x n hn).1
    simp only [Option.any_some, decide_eq_true_eq, Option.some.injEq]
    omega

/-- The readers of `a` wait for one cell less, all others for as many as before. -/
theorem waiting_release {a x : Address} {n : Nat} {waiting : Waiting} (hg : g.Mirrored) :
    ((g.dependents.of a).toList.foldl release (waiting, [])).1[x]? = some n ↔
      (g.Reads x a ∧ 0 < n ∧ waiting[x]? = some (n + 1)) ∨
        (¬ g.Reads x a ∧ waiting[x]? = some n) := by
  rw [foldl_release_getElem? (nodup_toList _), ← mem_readers hg]
  by_cases hx : x ∈ (g.dependents.of a).toList
  · simp only [hx, if_true, true_and, not_true_eq_false, false_and, or_false]
    cases waiting[x]? with
    | none => simp
    | some m =>
      simp only [Option.bind_some, fewer, Option.some.injEq]
      split
      · simp only [reduceCtorEq, false_iff]
        omega
      · simp only [Option.some.injEq]
        omega
  · simp [hx]

theorem LoopState.step {a : Address} {queue : List Address} {waiting : Waiting} (hg : g.Mirrored)
    (h : LoopState g members done (a :: queue) waiting) :
    LoopState g members (done ++ [a])
      (queue ++ ((g.dependents.of a).toList.foldl release (waiting, [])).2)
      ((g.dependents.of a).toList.foldl release (waiting, [])).1 := by
  have ha : a ∈ members := (h.mem_iff a).mpr (Or.inr (Or.inl List.mem_cons_self))
  have hmet : ∀ x, g.Reads x a →
      g.unmet members (done ++ [a]) x + 1 = g.unmet members done x :=
    fun x hx => unmet_snoc_of_reads ha h.not_mem_done hx
  constructor
  case nodup =>
    have hold : ((done ++ [a]) ++ queue).Nodup := by simpa using h.nodup
    have hnew : ((g.dependents.of a).toList.foldl release (waiting, [])).2.Nodup := by
      rw [foldl_release_freed (nodup_toList _), List.nil_append]
      exact (nodup_toList _).filter _
    rw [← List.append_assoc]
    refine List.nodup_append.mpr ⟨hold, hnew, ?_⟩
    rintro x hx y hy rfl
    have hapart := h.apart x 1 ((h.mem_freed hg).mp hy).2
    have hmem : x ∈ done ∨ x ∈ a :: queue := by simpa using hx
    exact hmem.elim hapart.1 hapart.2
  case mem_iff =>
    intro x
    rw [h.mem_iff x, List.mem_append, List.mem_append, h.mem_freed hg, List.mem_singleton,
      List.mem_cons]
    have hwaiting : (∃ n, waiting[x]? = some n) ↔ (g.Reads x a ∧ waiting[x]? = some 1) ∨
        ∃ n, ((g.dependents.of a).toList.foldl release (waiting, [])).1[x]? = some n := by
      simp only [waiting_release hg]
      constructor
      · rintro ⟨n, hn⟩
        have hpos := (h.waits x n hn).1
        by_cases hx : g.Reads x a
        · rcases Nat.eq_or_lt_of_le hpos with rfl | hlt
          · exact Or.inl ⟨hx, hn⟩
          · exact Or.inr ⟨n - 1, Or.inl ⟨hx, by omega, by rw [hn]; congr 1; omega⟩⟩
        · exact Or.inr ⟨n, Or.inr ⟨hx, hn⟩⟩
      · rintro (⟨_, hn⟩ | ⟨n, ⟨_, _, hn⟩ | ⟨_, hn⟩⟩)
        · exact ⟨_, hn⟩
        · exact ⟨_, hn⟩
        · exact ⟨_, hn⟩
    rw [hwaiting]
    simp only [or_assoc]
  case waits =>
    intro x n hn
    rcases (waiting_release hg).mp hn with ⟨hx, hpos, hold⟩ | ⟨hx, hold⟩
    · have hcount := (h.waits x _ hold).2
      have := hmet x hx
      exact ⟨hpos, by omega⟩
    · rw [unmet_snoc_of_not_reads hx]
      exact h.waits x n hold
  case apart =>
    intro x n hn
    obtain ⟨m, hold⟩ : ∃ m, waiting[x]? = some m := by
      rcases (waiting_release hg).mp hn with ⟨_, _, hold⟩ | ⟨_, hold⟩
      · exact ⟨_, hold⟩
      · exact ⟨_, hold⟩
    obtain ⟨hdone, hqueue⟩ := h.apart x m hold
    have hne : x ≠ a := List.ne_of_not_mem_cons hqueue
    have hlater : x ∉ queue := List.not_mem_of_not_mem_cons hqueue
    constructor
    · simp [hdone, hne]
    · rw [List.mem_append, h.mem_freed hg, not_or]
      refine ⟨hlater, ?_⟩
      rintro ⟨hx, hone⟩
      rcases (waiting_release hg).mp hn with ⟨_, hpos, htwo⟩ | ⟨hnot, _⟩
      · have := Option.some.inj (hone.symm.trans htwo)
        omega
      · exact hnot hx
  case free =>
    intro x hx
    rcases List.mem_append.mp hx with hx | hx
    · have hzero := h.free x (List.mem_cons_of_mem _ hx)
      rw [unmet_eq_zero_iff] at hzero ⊢
      exact fun b hb hr => List.mem_append_left _ (hzero b hb hr)
    · obtain ⟨hr, hone⟩ := (h.mem_freed hg).mp hx
      have hcount := (h.waits x 1 hone).2
      have := hmet x hr
      omega

/-- Each cell comes after all members that it reads, those in `done` being taken before. -/
def ReadyOrder (g : Graph) (members : AddressSet) : List Address → List Address → Prop
  | _, [] => True
  | done, a :: rest =>
    a ∉ done ∧ (∀ b ∈ members, g.Reads a b → b ∈ done) ∧ ReadyOrder g members (done ++ [a]) rest

theorem evaluationLoop_ready {queue : List Address} {waiting : Waiting} (hg : g.Mirrored)
    (h : LoopState g members done queue waiting) :
    ReadyOrder g members done (g.evaluationLoop waiting queue).order := by
  fun_induction evaluationLoop g waiting queue generalizing done
  case case1 => trivial
  case case2 waiting a queue freed later ih =>
    have hfree := unmet_eq_zero_iff.mp (h.free a List.mem_cons_self)
    exact ⟨h.not_mem_done, hfree, ih (h.step hg)⟩

theorem mem_evaluationLoop {queue : List Address} {waiting : Waiting} (hg : g.Mirrored)
    (h : LoopState g members done queue waiting) (a : Address) :
    a ∈ members ↔ a ∈ done ∨ a ∈ (g.evaluationLoop waiting queue).order ∨
      a ∈ (g.evaluationLoop waiting queue).stalled := by
  fun_induction evaluationLoop g waiting queue generalizing done
  case case1 waiting =>
    rw [h.mem_iff a, Std.ExtTreeMap.mem_keys, Std.ExtTreeMap.mem_iff_isSome_getElem?,
      Option.isSome_iff_exists]
  case case2 waiting b queue freed later ih =>
    rw [ih (h.step hg), List.mem_append, List.mem_singleton, List.mem_cons]
    simp only [or_assoc]
    rfl

theorem stalled_evaluationLoop {queue : List Address} {waiting : Waiting} (hg : g.Mirrored)
    (h : LoopState g members done queue waiting) {a : Address}
    (ha : a ∈ (g.evaluationLoop waiting queue).stalled) :
    ∃ b ∈ (g.evaluationLoop waiting queue).stalled, g.Reads a b := by
  fun_induction evaluationLoop g waiting queue generalizing done
  case case1 waiting =>
    have hkey : ∀ x, x ∈ waiting.keys ↔ ∃ n, waiting[x]? = some n := by
      intro x
      rw [Std.ExtTreeMap.mem_keys, Std.ExtTreeMap.mem_iff_isSome_getElem?, Option.isSome_iff_exists]
    obtain ⟨n, hn⟩ := (hkey a).mp ha
    obtain ⟨hpos, hcount⟩ := h.waits a n hn
    by_contra hnone
    have hzero : g.unmet members done a = 0 := by
      rw [unmet_eq_zero_iff]
      intro b hb hr
      rcases (h.mem_iff b).mp hb with hd | hq | hw
      · exact hd
      · simp at hq
      · exact absurd ⟨b, (hkey b).mpr hw, hr⟩ hnone
    omega
  case case2 waiting b queue freed later ih => exact ih (h.step hg) ha

theorem loopState_start (g : Graph) (members : AddressSet) :
    LoopState g members []
      (((members.toList.map fun a => (a, g.pending members a)).filter
        fun entry => entry.2 = 0).map (·.1))
      (Std.ExtTreeMap.ofList ((members.toList.map fun a => (a, g.pending members a)).filter
        fun entry => entry.2 ≠ 0)) := by
  have hqueue : ∀ a, a ∈ ((members.toList.map fun a => (a, g.pending members a)).filter
      fun entry => entry.2 = 0).map (·.1) ↔ a ∈ members ∧ g.pending members a = 0 := by
    intro a
    simp only [List.mem_map, List.mem_filter, decide_eq_true_eq]
    constructor
    · rintro ⟨_, ⟨⟨x, hx, rfl⟩, hzero⟩, rfl⟩
      exact ⟨Std.ExtTreeSet.mem_toList.mp hx, hzero⟩
    · rintro ⟨ha, hzero⟩
      exact ⟨_, ⟨⟨a, Std.ExtTreeSet.mem_toList.mpr ha, rfl⟩, hzero⟩, rfl⟩
  have hwaiting : ∀ a n, (Std.ExtTreeMap.ofList ((members.toList.map
      fun a => (a, g.pending members a)).filter fun entry => entry.2 ≠ 0) : Waiting)[a]? = some n ↔
      a ∈ members ∧ n = g.pending members a ∧ n ≠ 0 := by
    intro a n
    have hdistinct : (members.toList.map fun a => (a, g.pending members a)).Pairwise
        fun p q => p.1 ≠ q.1 := List.pairwise_map.mpr (nodup_toList members)
    rw [getElem?_ofList_eq_some_iff (hdistinct.filter _), List.mem_filter, List.mem_map]
    simp only [Prod.mk.injEq, decide_eq_true_eq]
    constructor
    · rintro ⟨⟨x, hx, rfl, rfl⟩, hn⟩
      exact ⟨Std.ExtTreeSet.mem_toList.mp hx, rfl, hn⟩
    · rintro ⟨ha, rfl, hn⟩
      exact ⟨⟨a, Std.ExtTreeSet.mem_toList.mpr ha, rfl, rfl⟩, hn⟩
  constructor
  case nodup =>
    have hnodup : ((members.toList.map fun a => (a, g.pending members a)).map (·.1)).Nodup := by
      rw [List.map_map]
      simpa [Function.comp_def] using nodup_toList members
    exact hnodup.sublist (List.filter_sublist.map _)
  case mem_iff =>
    intro a
    simp only [List.not_mem_nil, false_or, hqueue, hwaiting]
    constructor
    · intro ha
      by_cases hzero : g.pending members a = 0
      · exact Or.inl ⟨ha, hzero⟩
      · exact Or.inr ⟨_, ha, rfl, hzero⟩
    · rintro (⟨ha, _⟩ | ⟨_, ha, _⟩)
      · exact ha
      · exact ha
  case waits =>
    intro a n hn
    obtain ⟨_, hcount, hne⟩ := (hwaiting a n).mp hn
    exact ⟨Nat.pos_of_ne_zero hne, hcount.trans unmet_nil.symm⟩
  case apart =>
    intro a n hn
    obtain ⟨_, rfl, hne⟩ := (hwaiting a n).mp hn
    exact ⟨List.not_mem_nil, fun hq => hne ((hqueue a).mp hq).2⟩
  case free =>
    intro a ha
    exact unmet_nil.trans ((hqueue a).mp ha).2

variable {cells : List Address} {a b : Address}

theorem mem_members : a ∈ (Std.ExtTreeSet.ofList cells : AddressSet) ↔ a ∈ cells := by
  rw [Std.ExtTreeSet.mem_ofList, List.contains_eq_mem, decide_eq_true_iff]

theorem evaluationOrder_ready (hg : g.Mirrored) (cells : List Address) :
    ReadyOrder g (Std.ExtTreeSet.ofList cells) [] (g.evaluationOrder cells).order :=
  evaluationLoop_ready hg (loopState_start g _)

/-- Every given cell comes out, in the order or stalled, and no other. -/
theorem mem_evaluationOrder (hg : g.Mirrored) :
    a ∈ cells ↔ a ∈ (g.evaluationOrder cells).order ∨ a ∈ (g.evaluationOrder cells).stalled := by
  rw [← mem_members, mem_evaluationLoop hg (loopState_start g _) a]
  simp only [List.not_mem_nil, false_or]
  rfl

theorem stalled_evaluationOrder (hg : g.Mirrored) (ha : a ∈ (g.evaluationOrder cells).stalled) :
    ∃ b ∈ (g.evaluationOrder cells).stalled, g.Reads a b :=
  stalled_evaluationLoop hg (loopState_start g _) ha

/-- Among finitely many cells, none of them on a loop, there is one that leads to no other. -/
theorem exists_leads_nowhere {r : Address → Address → Prop} (hfree : ∀ a ∈ cells, ¬ TransGen r a a)
    (hne : cells ≠ []) : ∃ x ∈ cells, ∀ y ∈ cells, ¬ TransGen r x y := by
  induction cells with
  | nil => exact absurd rfl hne
  | cons a rest ih =>
    have ha := hfree a List.mem_cons_self
    by_cases hrest : rest = []
    · subst hrest
      refine ⟨a, List.mem_cons_self, ?_⟩
      intro y hy
      obtain rfl := List.mem_singleton.mp hy
      exact ha
    · obtain ⟨x, hx, hnone⟩ := ih (fun b hb => hfree b (List.mem_cons_of_mem _ hb)) hrest
      -- If the one found in the rest leads to `a`, then `a` is the one.
      by_cases hxa : TransGen r x a
      · refine ⟨a, List.mem_cons_self, ?_⟩
        intro y hy hay
        rcases List.mem_cons.mp hy with rfl | hy
        · exact ha hay
        · exact hnone y hy (hxa.trans hay)
      · refine ⟨x, List.mem_cons_of_mem _ hx, ?_⟩
        intro y hy
        rcases List.mem_cons.mp hy with rfl | hy
        · exact hxa
        · exact hnone y hy

/-- Without loops every cell gets its place. -/
theorem stalled_eq_nil (hg : g.Mirrored) (hacyclic : g.Acyclic) (cells : List Address) :
    (g.evaluationOrder cells).stalled = [] := by
  by_contra hne
  obtain ⟨x, hx, hnone⟩ := exists_leads_nowhere (fun a _ => hacyclic a) hne
  obtain ⟨y, hy, hxy⟩ := stalled_evaluationOrder hg hx
  exact hnone y hy (.single hxy)

theorem ReadyOrder.disjoint {order : List Address} (h : ReadyOrder g members done order) :
    ∀ x ∈ order, x ∉ done := by
  induction order generalizing done with
  | nil => simp
  | cons a rest ih =>
    intro x hx
    rcases List.mem_cons.mp hx with rfl | hx
    · exact h.1
    · have hnot := ih h.2.2 x hx
      exact fun hd => hnot (List.mem_append_left _ hd)

theorem ReadyOrder.nodup {order : List Address} (h : ReadyOrder g members done order) :
    order.Nodup := by
  induction order generalizing done with
  | nil => exact List.nodup_nil
  | cons a rest ih =>
    refine List.nodup_cons.mpr ⟨?_, ih h.2.2⟩
    intro ha
    exact h.2.2.disjoint a ha (by simp)

theorem ReadyOrder.mem_of_reads {order : List Address} (h : ReadyOrder g members done order)
    {i : Nat} (hi : i < order.length) (hb : b ∈ members) (hr : g.Reads order[i] b) :
    b ∈ done ++ order.take i := by
  induction order generalizing done i with
  | nil => simp at hi
  | cons a rest ih =>
    cases i with
    | zero => simpa using h.2.1 b hb hr
    | succ i =>
      have hbound : i < rest.length := by simpa using hi
      have hlater := ih h.2.2 hbound (by simpa using hr)
      simpa using hlater

/-- A cell that reads another one of the order comes behind it. -/
theorem ReadyOrder.lt_of_reads {order : List Address} (h : ReadyOrder g members [] order)
    {i j : Nat} (hi : i < order.length) (hj : j < order.length) (hb : order[j] ∈ members)
    (hr : g.Reads order[i] order[j]) : j < i := by
  have hmem : order[j] ∈ order.take i := by simpa using h.mem_of_reads hi hb hr
  obtain ⟨k, hk, heq⟩ := List.mem_take_iff_getElem.mp hmem
  have hkj : k = j := (List.Nodup.getElem_inj_iff h.nodup).mp heq
  omega

end Graph

end Recalc
