import Recalc.Evaluation.Eval
import Recalc.Proofs.Sheet.Reads

namespace Recalc

namespace Run

variable {α β : Type}

theorem result_bind_of_ok {r : Run α} {f : α → Run β} {a : α} (h : r.result = .ok a) :
    (r >>= f).result = (f a).result := by
  obtain ⟨_, steps⟩ := r
  cases h
  rfl

theorem result_bind_of_error {r : Run α} {f : α → Run β} {e : EvalError}
    (h : r.result = .error e) : (r >>= f).result = .error e := by
  obtain ⟨_, steps⟩ := r
  cases h
  rfl

theorem bind_eq_ok {r : Run α} {f : α → Run β} {b : β} :
    (r >>= f).result = .ok b ↔ ∃ a, r.result = .ok a ∧ (f a).result = .ok b := by
  cases hr : r.result with
  | ok a => simp [result_bind_of_ok hr]
  | error e => simp [result_bind_of_error hr]

theorem bind_eq_error {r : Run α} {f : α → Run β} {e : EvalError} :
    (r >>= f).result = .error e ↔
      r.result = .error e ∨ ∃ a, r.result = .ok a ∧ (f a).result = .error e := by
  cases hr : r.result with
  | ok a => simp [result_bind_of_ok hr]
  | error e' => simp [result_bind_of_error hr]

@[simp] theorem result_ofExcept (x : Except EvalError α) : (ofExcept x).result = x := rfl

@[simp] theorem result_noted (keep : Bool) (subject : Expr) (r : Run Value) :
    (noted keep subject r).result = r.result := by
  unfold noted
  split <;> rfl

theorem forEach_ok {f : Nat → Run β} {start count : Nat} {bs : List β}
    (h : (forEach f start count).result = .ok bs) {i : Nat} (hlow : start ≤ i)
    (hhigh : i < start + count) : ∃ b, (f i).result = .ok b := by
  induction count generalizing start bs with
  | zero => omega
  | succ count ih =>
    obtain ⟨b, hb, hrest⟩ := bind_eq_ok.mp h
    obtain ⟨bs', hbs', _⟩ := bind_eq_ok.mp hrest
    by_cases hi : i = start
    · exact ⟨b, hi ▸ hb⟩
    · exact ih hbs' (by omega) (by omega)

theorem forEach_error {f : Nat → Run β} {start count : Nat} {e : EvalError}
    (h : (forEach f start count).result = .error e) :
    ∃ i, start ≤ i ∧ i < start + count ∧ (f i).result = .error e := by
  induction count generalizing start with
  | zero => cases h
  | succ count ih =>
    rcases bind_eq_error.mp h with hfirst | ⟨b, _, hrest⟩
    · exact ⟨start, by omega, by omega, hfirst⟩
    · rcases bind_eq_error.mp hrest with hlater | ⟨bs, _, hpure⟩
      · obtain ⟨i, hlow, hhigh, hi⟩ := ih hlater
        exact ⟨i, by omega, by omega, hi⟩
      · cases hpure

end Run

namespace Surroundings

variable {env : Surroundings} {r : Rect}

theorem readRect_ok {vs : List Value} (h : (env.readRect r).result = .ok vs) {a : Address}
    (ha : r.Contains a) : ∃ v, (env.read a).result = .ok v := by
  obtain ⟨htop, hbottom, hleft, hright⟩ := ha
  unfold readRect at h
  split at h
  next =>
    obtain ⟨rows, hrows, _⟩ := Run.bind_eq_ok.mp h
    obtain ⟨row, hrow⟩ := Run.forEach_ok hrows htop (by unfold Rect.height; omega)
    exact Run.forEach_ok hrow hleft (by unfold Rect.width; omega)
  next => cases h

theorem readRect_error {e : EvalError} (h : (env.readRect r).result = .error e) :
    e = .outOfBounds r.bottomRight ∨ ∃ a, r.Contains a ∧ (env.read a).result = .error e := by
  have htop := r.top_le_bottom
  have hleft := r.left_le_right
  unfold readRect at h
  split at h
  next =>
    rcases Run.bind_eq_error.mp h with hrows | ⟨rows, _, hpure⟩
    · obtain ⟨row, hrow, hrow', hcols⟩ := Run.forEach_error hrows
      obtain ⟨col, hcol, hcol', hcell⟩ := Run.forEach_error hcols
      unfold Rect.height at hrow'
      unfold Rect.width at hcol'
      exact Or.inr ⟨⟨row, col⟩, ⟨hrow, by dsimp only; omega, hcol, by dsimp only; omega⟩, hcell⟩
    · cases hpure
  next =>
    cases h
    exact Or.inl rfl

end Surroundings

namespace Expr

/-- The function `f` is called somewhere in the formula. -/
inductive Calls (f : String) : Expr → Prop
  | here {args : List Expr} : Calls f (.call f args)
  | argument {g : String} {args : List Expr} {e : Expr} (he : e ∈ args) (h : Calls f e) :
      Calls f (.call g args)
  | left {op : Operator} {left right : Expr} (h : Calls f left) : Calls f (.binary op left right)
  | right {op : Operator} {left right : Expr} (h : Calls f right) : Calls f (.binary op left right)
  | neg {operand : Expr} (h : Calls f operand) : Calls f (.neg operand)

def isRange : Expr → Bool
  | range .. => true
  | _ => false

/-- Somewhere in the formula a range stands which is no argument of a function that takes ranges. -/
inductive StrayRange : Expr → Prop
  | range {first last : Reference} : StrayRange (.range first last)
  | argument {f : String} {args : List Expr} {e : Expr} (he : e ∈ args)
      (hplain : ∀ builtin, Builtin.lookup? f = some builtin → builtin.acceptsRanges = true →
        e.isRange = false)
      (h : StrayRange e) : StrayRange (.call f args)
  | left {op : Operator} {left right : Expr} (h : StrayRange left) :
      StrayRange (.binary op left right)
  | right {op : Operator} {left right : Expr} (h : StrayRange right) :
      StrayRange (.binary op left right)
  | neg {operand : Expr} (h : StrayRange operand) : StrayRange (.neg operand)

/-- What an operand needs to have a value; an argument that may be a range is one, where `ranges`
holds. -/
structure Usable (env : Surroundings) (ranges : Bool) (e : Expr) : Prop where
  reads : ∀ a, e.Names a → ∃ v, (env.read a).result = .ok v
  known : ∀ f, e.Calls f → (Builtin.lookup? f).isSome = true
  placed : e.StrayRange → ranges = true ∧ e.isRange = true

variable {env : Surroundings}

theorem Usable.of_value {ranges : Bool} {e : Expr} (h : Usable env false e) :
    Usable env ranges e :=
  ⟨h.reads, h.known, fun hstray => absurd (h.placed hstray).1 Bool.false_ne_true⟩

theorem Usable.not_strayRange {e : Expr} (h : Usable env false e) : ¬ e.StrayRange :=
  fun hstray => absurd (h.placed hstray).1 Bool.false_ne_true

mutual

/-- A formula with a value has read all that it names, and all its functions and ranges are good. -/
theorem usable_of_eval (e : Expr) {v : Value} (h : (e.eval env).result = .ok v) :
    Usable env false e := by
  cases e with
  | number | text | bool => exact ⟨nofun, nofun, nofun⟩
  | ref r =>
    rw [eval] at h
    refine ⟨?_, nofun, nofun⟩
    rintro a ⟨rfl⟩
    exact ⟨v, h⟩
  | range first last =>
    rw [eval] at h
    cases h
  | call f args =>
    rw [eval, Run.result_noted] at h
    split at h
    next => cases h
    next builtin hbuiltin =>
      obtain ⟨_, _, hargs⟩ := Run.bind_eq_ok.mp h
      obtain ⟨values, hvalues, _⟩ := Run.bind_eq_ok.mp hargs
      have husable := usable_of_evalArguments builtin.acceptsRanges args hvalues
      constructor
      case reads =>
        intro a ha
        cases ha with
        | call he ha => exact (husable _ he).reads a ha
      case known =>
        intro g hg
        cases hg with
        | here => exact Option.isSome_of_eq_some hbuiltin
        | argument he hg => exact (husable _ he).known g hg
      case placed =>
        intro hstray
        cases hstray with
        | argument he hplain hstray =>
          obtain ⟨haccepts, hrange⟩ := (husable _ he).placed hstray
          have hnone := hplain builtin hbuiltin haccepts
          exact absurd hrange (by simp [hnone])
  | binary op left right =>
    rw [eval] at h
    obtain ⟨x, hx, hrest⟩ := Run.bind_eq_ok.mp h
    obtain ⟨y, hy, _⟩ := Run.bind_eq_ok.mp hrest
    have hleft := usable_of_eval left hx
    have hright := usable_of_eval right hy
    constructor
    case reads =>
      intro a ha
      cases ha with
      | left ha => exact hleft.reads a ha
      | right ha => exact hright.reads a ha
    case known =>
      intro f hf
      cases hf with
      | left hf => exact hleft.known f hf
      | right hf => exact hright.known f hf
    case placed =>
      intro hstray
      cases hstray with
      | left hstray => exact absurd hstray hleft.not_strayRange
      | right hstray => exact absurd hstray hright.not_strayRange
  | neg operand =>
    rw [eval] at h
    obtain ⟨x, hx, _⟩ := Run.bind_eq_ok.mp h
    have hoperand := usable_of_eval operand hx
    constructor
    case reads =>
      intro a ha
      cases ha with
      | neg ha => exact hoperand.reads a ha
    case known =>
      intro f hf
      cases hf with
      | neg hf => exact hoperand.known f hf
    case placed =>
      intro hstray
      cases hstray with
      | neg hstray => exact absurd hstray hoperand.not_strayRange

theorem usable_of_evalArguments (ranges : Bool) (es : List Expr) {vs : List Value}
    (h : (evalArguments env ranges es).result = .ok vs) : ∀ e ∈ es, Usable env ranges e := by
  cases es with
  | nil => simp
  | cons e es =>
    rw [evalArguments.eq_def] at h
    dsimp only at h
    split at h
    next first last =>
      obtain ⟨here, hhere, hrest⟩ := Run.bind_eq_ok.mp h
      obtain ⟨later, hlater, _⟩ := Run.bind_eq_ok.mp hrest
      have husable := usable_of_evalArguments true es hlater
      refine List.forall_mem_cons.mpr ⟨⟨?_, nofun, fun _ => ⟨rfl, rfl⟩⟩, husable⟩
      intro a ha
      cases ha with
      | range ha => exact Surroundings.readRect_ok hhere ha
    next =>
      obtain ⟨v, hv, hrest⟩ := Run.bind_eq_ok.mp h
      obtain ⟨_, _, hrest⟩ := Run.bind_eq_ok.mp hrest
      obtain ⟨later, hlater, _⟩ := Run.bind_eq_ok.mp hrest
      have husable := usable_of_evalArguments ranges es hlater
      exact List.forall_mem_cons.mpr ⟨(usable_of_eval e hv).of_value, husable⟩

end

theorem not_circular_of_checkArity {builtin : Builtin} {f : String} {given : Nat} {x : Address} :
    builtin.checkArity f given ≠ .error (.circular x) := by
  unfold Builtin.checkArity
  split
  · simp
  · split <;> simp

theorem not_circular_of_apply {op : Operator} {v w : Value} {x : Address} :
    op.apply v w ≠ .error (.circular x) := by
  unfold Operator.apply
  cases op <;> try simp
  split <;> simp

mutual

/-- Only by reading a cell does a formula run into a loop. -/
theorem circular_of_eval (e : Expr) {x : Address} (h : (e.eval env).result = .error (.circular x)) :
    ∃ a, e.Names a ∧ (env.read a).result = .error (.circular x) := by
  cases e with
  | number | text | bool =>
    rw [eval] at h
    cases h
  | ref r =>
    rw [eval] at h
    exact ⟨r.address, .ref rfl, h⟩
  | range first last =>
    rw [eval] at h
    cases h
  | call f args =>
    rw [eval, Run.result_noted] at h
    split at h
    next => cases h
    next builtin _ =>
      rcases Run.bind_eq_error.mp h with harity | ⟨_, _, hrest⟩
      · exact absurd harity not_circular_of_checkArity
      · rcases Run.bind_eq_error.mp hrest with hargs | ⟨_, _, hpure⟩
        · obtain ⟨e, he, a, ha, hread⟩ := circular_of_evalArguments builtin.acceptsRanges args hargs
          exact ⟨a, .call he ha, hread⟩
        · cases hpure
  | binary op left right =>
    rw [eval] at h
    rcases Run.bind_eq_error.mp h with hleft | ⟨v, _, hrest⟩
    · obtain ⟨a, ha, hread⟩ := circular_of_eval left hleft
      exact ⟨a, .left ha, hread⟩
    · rcases Run.bind_eq_error.mp hrest with hright | ⟨w, _, hop⟩
      · obtain ⟨a, ha, hread⟩ := circular_of_eval right hright
        exact ⟨a, .right ha, hread⟩
      · rw [Run.result_noted, Run.result_ofExcept] at hop
        exact absurd hop not_circular_of_apply
  | neg operand =>
    rw [eval] at h
    rcases Run.bind_eq_error.mp h with hoperand | ⟨v, _, hneg⟩
    · obtain ⟨a, ha, hread⟩ := circular_of_eval operand hoperand
      exact ⟨a, .neg ha, hread⟩
    · rw [Run.result_noted] at hneg
      cases hneg

theorem circular_of_evalArguments (ranges : Bool) (es : List Expr) {x : Address}
    (h : (evalArguments env ranges es).result = .error (.circular x)) :
    ∃ e ∈ es, ∃ a, e.Names a ∧ (env.read a).result = .error (.circular x) := by
  cases es with
  | nil =>
    rw [evalArguments] at h
    cases h
  | cons e es =>
    have hlater : (evalArguments env ranges es).result = .error (.circular x) →
        ∃ e' ∈ e :: es, ∃ a, e'.Names a ∧ (env.read a).result = .error (.circular x) := by
      intro hlater
      obtain ⟨e', he', hread⟩ := circular_of_evalArguments ranges es hlater
      exact ⟨e', List.mem_cons_of_mem _ he', hread⟩
    rw [evalArguments.eq_def] at h
    dsimp only at h
    split at h
    next first last =>
      rcases Run.bind_eq_error.mp h with hrect | ⟨_, _, hrest⟩
      · rcases Surroundings.readRect_error hrect with hout | ⟨a, ha, hread⟩
        · cases hout
        · exact ⟨_, List.mem_cons_self, a, .range ha, hread⟩
      · rcases Run.bind_eq_error.mp hrest with hrest | ⟨_, _, hpure⟩
        · exact hlater hrest
        · cases hpure
    next =>
      rcases Run.bind_eq_error.mp h with hvalue | ⟨_, _, hrest⟩
      · obtain ⟨a, ha, hread⟩ := circular_of_eval e hvalue
        exact ⟨e, List.mem_cons_self, a, ha, hread⟩
      · rcases Run.bind_eq_error.mp hrest with hpure | ⟨_, _, hrest⟩
        · cases hpure
        · rcases Run.bind_eq_error.mp hrest with hrest | ⟨_, _, hpure⟩
          · exact hlater hrest
          · cases hpure

end

end Expr

end Recalc
