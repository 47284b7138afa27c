import Recalc.Proofs.Evaluation.Locality

namespace Recalc

/-- A read of a cell inside the sheet, and the cells that wait for it, the innermost first. -/
structure Visit where
  cell : Address
  waiting : List Address
  entered : Bool

/-- What the parts of an evaluation share and change. -/
structure Workspace where
  guarded : AddressSet
  steps : List Step
  visits : List Visit

/-- A part of an evaluation, done in the workspace. It has no end where it nests too deep, and
what it did before an error stays done. -/
abbrev RunInPlace (α : Type) := ExceptT EvalError (StateT Workspace Option) α

namespace RunInPlace

def tooDeep {α : Type} : RunInPlace α := fun _ => none

/-- What comes of `x`, which may be an error. -/
def outcomeOf {α : Type} (x : RunInPlace α) : RunInPlace (Except EvalError α) :=
  ExceptT.lift x.run

def visit (v : Visit) : RunInPlace Unit := modify fun w => { w with visits := w.visits ++ [v] }

/-- Note the outcome as a step, if steps are kept. -/
def noted (keep : Bool) (subject : Expr) (x : RunInPlace Value) : RunInPlace Value := do
  let outcome ← outcomeOf x
  if keep then
    modify fun w => { w with steps := w.steps ++ [⟨subject, outcome⟩] }
  MonadExcept.ofExcept outcome

/-- Guard a cell until `x` has ended, with a value or with an error. -/
def guarding (a : Address) (x : RunInPlace Value) : RunInPlace Value := do
  modify fun w => { w with guarded := w.guarded.insert a }
  let outcome ← outcomeOf x
  modify fun w => { w with guarded := w.guarded.erase a }
  MonadExcept.ofExcept outcome

def forEach {β : Type} (f : Nat → RunInPlace β) (start : Nat) : Nat → RunInPlace (List β)
  | 0 => pure []
  | count + 1 => do
    let b ← f start
    let bs ← forEach f (start + 1) count
    return b :: bs

end RunInPlace

structure SurroundingsInPlace where
  read : Address → RunInPlace Value
  contains : Address → Bool
  traced : Bool

def SurroundingsInPlace.readRect (env : SurroundingsInPlace) (r : Rect) :
    RunInPlace (List Value) :=
  if env.contains r.bottomRight then do
    let rows ← RunInPlace.forEach
      (fun row => RunInPlace.forEach (fun col => env.read ⟨row, col⟩) r.left r.width) r.top r.height
    return rows.flatten
  else throw (.outOfBounds r.bottomRight)

namespace Expr

mutual

def evalInPlace (env : SurroundingsInPlace) : Expr → RunInPlace Value
  | number x => pure (.number x)
  | text s => pure (.text s)
  | bool b => pure (.bool b)
  | ref r => env.read r.address
  | range first last => throw (.rangeOutsideFunction (range first last).toText)
  | call f args =>
    RunInPlace.noted env.traced (call f args) <|
      match Builtin.lookup? f with
      | none => throw (.unknownFunction f)
      | some builtin => do
        MonadExcept.ofExcept (builtin.checkArity f args.length)
        let values ← evalArgumentsInPlace env builtin.acceptsRanges args
        return builtin.apply values
  | binary op left right => do
    let x ← evalInPlace env left
    let y ← evalInPlace env right
    RunInPlace.noted env.traced (binary op left right) <| MonadExcept.ofExcept (op.apply x y)
  | neg operand => do
    let x ← evalInPlace env operand
    RunInPlace.noted env.traced (neg operand) (pure (.number (-x.toNumber)))

def evalArgumentsInPlace (env : SurroundingsInPlace) (ranges : Bool) :
    List Expr → RunInPlace (List Value)
  | [] => pure []
  | e :: es => do
    let here ← match e, ranges with
      | range first last, true => env.readRect (Rect.spanning first.address last.address)
      | e, _ => do
        let v ← evalInPlace env e
        pure [v]
    let later ← evalArgumentsInPlace env ranges es
    return here ++ later

end

end Expr

def Cell.readInPlace (env : SurroundingsInPlace) (a : Address) : Option Cell → RunInPlace Value
  | none => pure .null
  | some (.literal v) => pure v
  | some (.error f) => throw (.propagated a f)
  | some (.formula source none) => throw (.unparsed source)
  | some (.formula _ (some e)) => e.evalInPlace env

namespace Sheet

/-- The value of a cell that a formula refers to, where reads nest up to a `depth`. -/
def readInPlace (s : Sheet) (traced : Bool) : Nat → List Address → Address → RunInPlace Value
  | 0, _, _ => RunInPlace.tooDeep
  | depth + 1, waiting, a =>
    if !s.contains a then throw (.outOfBounds a)
    else do
      if a ∈ (← get).guarded then
        RunInPlace.visit ⟨a, waiting, false⟩
        throw (.circular a)
      else
        RunInPlace.visit ⟨a, waiting, true⟩
        RunInPlace.noted traced (.ref ⟨a, ⟨false, false⟩⟩) <| RunInPlace.guarding a <|
          Cell.readInPlace ⟨s.readInPlace traced depth (a :: waiting), s.contains, traced⟩ a
            (s.get? a)

def surroundingsInPlace (s : Sheet) (traced : Bool) (depth : Nat) (waiting : List Address) :
    SurroundingsInPlace :=
  ⟨s.readInPlace traced depth waiting, s.contains, traced⟩

/-- Evaluate a formula that the `waiting` cells wait for, and tell which cells were visited. -/
def evaluateExprInPlace (s : Sheet) (policy : Policy) (traced : Bool) (depth : Nat)
    (waiting : List Address) (e : Expr) : Option (Evaluation × List Visit) := do
  let start : Workspace := ⟨Std.ExtTreeSet.ofList waiting, [], []⟩
  let (result, w) ← (e.evalInPlace (s.surroundingsInPlace traced depth waiting)).run.run start
  return (⟨result.mapError (·.failure policy), if traced then some w.steps else none⟩, w.visits)

def evaluateCellInPlace (s : Sheet) (policy : Policy) (a : Address) (traced : Bool)
    (depth : Nat) : Option (Evaluation × List Visit) :=
  if !s.contains a then some (.of (.error ((EvalError.outOfBounds a).failure policy)), [])
  else
    match s.get? a with
    | none => some (.of (.ok .null), [])
    | some (.literal v) => some (.of (.ok v), [])
    | some (.error f) => some (.of (.error f), [])
    | some (.formula source none) =>
      some (.of (.error ((EvalError.unparsed source).failure policy)), [])
    | some (.formula _ (some e)) => s.evaluateExprInPlace policy traced depth [a] e

def evaluateFormulaInPlace (s : Sheet) (policy : Policy) (source : String) (traced : Bool)
    (depth : Nat) : Option (Evaluation × List Visit) :=
  match Expr.read source with
  | .error e => some (.of (.error e.failure), [])
  | .ok e => s.evaluateExprInPlace policy traced depth [] e

end Sheet

namespace RunInPlace

variable {α β : Type} {x : RunInPlace α} {k : α → RunInPlace β} {w w' : Workspace}

theorem run_bind_of_none (h : x.run.run w = none) : (x >>= k).run.run w = none := by
  change (x.run.run w >>= fun p => (ExceptT.bindCont k p.1).run p.2) = none
  rw [h]
  rfl

theorem run_bind_of_ok {a : α} (h : x.run.run w = some (.ok a, w')) :
    (x >>= k).run.run w = (k a).run.run w' := by
  change (x.run.run w >>= fun p => (ExceptT.bindCont k p.1).run p.2) = _
  rw [h]
  rfl

theorem run_bind_of_error {e : EvalError} (h : x.run.run w = some (.error e, w')) :
    (x >>= k).run.run w = some (.error e, w') := by
  change (x.run.run w >>= fun p => (ExceptT.bindCont k p.1).run p.2) = _
  rw [h]
  rfl

theorem run_ofExcept (o : Except EvalError α) :
    (MonadExcept.ofExcept o : RunInPlace α).run.run w = some (o, w) := by
  cases o with
  | ok a => rfl
  | error e => rfl

theorem run_outcomeOf_of_none (h : x.run.run w = none) : (outcomeOf x).run.run w = none := by
  change (x.run.run w >>= fun p => some (Except.ok p.1, p.2)) = none
  rw [h]
  rfl

theorem run_outcomeOf {o : Except EvalError α} (h : x.run.run w = some (o, w')) :
    (outcomeOf x).run.run w = some (.ok o, w') := by
  change (x.run.run w >>= fun p => some (Except.ok p.1, p.2)) = _
  rw [h]
  rfl

theorem run_modify_bind {f : Workspace → Workspace} {k : Unit → RunInPlace β} :
    ((modify f : RunInPlace Unit) >>= k).run.run w = (k ()).run.run (f w) :=
  rfl

/-- However the program ends, the guard is what it was at its start. -/
def KeepsGuard (x : RunInPlace α) : Prop :=
  ∀ w result w', x.run.run w = some (result, w') → w'.guarded = w.guarded

/-- From each workspace with the guard `g` the program ends like the run, keeps the guard and makes
visits of `p` only. Or it has no end, which is only where it may go too deep. -/
def Follows (deep : Prop) (g : AddressSet) (p : Visit → Prop) (x : RunInPlace α) (r : Run α) :
    Prop :=
  ∀ w, w.guarded = g → deep ∧ x.run.run w = none ∨
    ∃ visits, x.run.run w = some (r.result, ⟨g, w.steps ++ r.steps, w.visits ++ visits⟩) ∧
      ∀ v ∈ visits, p v

namespace Follows

variable {deep deep' : Prop} {g : AddressSet} {p p' : Visit → Prop} {r : Run α}

theorem mono (h : Follows deep g p x r) (hdeep : deep → deep') (hp : ∀ v, p v → p' v) :
    Follows deep' g p' x r := by
  intro w hw
  rcases h w hw with ⟨hd, hnone⟩ | ⟨visits, hrun, hvisits⟩
  · exact Or.inl ⟨hdeep hd, hnone⟩
  · exact Or.inr ⟨visits, hrun, fun v hv => hp v (hvisits v hv)⟩

theorem keepsGuard {deep : AddressSet → Prop} {p : AddressSet → Visit → Prop}
    {r : AddressSet → Run α} (h : ∀ g, Follows (deep g) g (p g) x (r g)) : x.KeepsGuard := by
  intro w result w' hrun
  rcases h w.guarded w rfl with ⟨_, hnone⟩ | ⟨visits, hrun', _⟩
  · cases hnone.symm.trans hrun
  · cases hrun'.symm.trans hrun
    rfl

theorem exists_run (h : Follows deep w.guarded p x r) (hdeep : ¬ deep) :
    ∃ w', x.run.run w = some (r.result, w') ∧ w'.guarded = w.guarded ∧
      w'.steps = w.steps ++ r.steps ∧
        ∃ visits, w'.visits = w.visits ++ visits ∧ ∀ v ∈ visits, p v := by
  rcases h w rfl with ⟨hd, _⟩ | ⟨visits, hrun, hvisits⟩
  · exact absurd hd hdeep
  · exact ⟨_, hrun, rfl, rfl, visits, rfl, hvisits⟩

theorem tooDeep (hd : deep) : Follows deep g p RunInPlace.tooDeep r :=
  fun _ _ => Or.inl ⟨hd, rfl⟩

theorem ofExcept (o : Except EvalError α) :
    Follows deep g p (MonadExcept.ofExcept o) (Run.ofExcept o) := by
  rintro ⟨_, steps, visits⟩ rfl
  refine Or.inr ⟨[], ?_, by simp⟩
  rw [run_ofExcept, List.append_nil]
  simp only [Run.ofExcept, List.append_nil]

theorem pure (a : α) : Follows deep g p (Pure.pure a) (Pure.pure a) :=
  ofExcept (.ok a)

theorem throw (e : EvalError) : Follows deep g p (MonadExcept.throw e) (Run.fail e : Run α) :=
  ofExcept (.error e)

theorem bind {f : α → Run β} (hx : Follows deep g p x r)
    (hk : ∀ a, Follows deep g p (k a) (f a)) : Follows deep g p (x >>= k) (r >>= f) := by
  intro w hw
  rcases hx w hw with ⟨hdeep, hnone⟩ | ⟨visits, hrun, hvisits⟩
  · exact Or.inl ⟨hdeep, run_bind_of_none hnone⟩
  · obtain ⟨result, steps⟩ := r
    cases result with
    | error e => exact Or.inr ⟨visits, run_bind_of_error hrun, hvisits⟩
    | ok a =>
      rw [run_bind_of_ok hrun]
      rcases hk a ⟨g, w.steps ++ steps, w.visits ++ visits⟩ rfl with hnone | ⟨later, hrun', hlater⟩
      · exact Or.inl hnone
      · refine Or.inr ⟨visits ++ later, ?_, List.forall_mem_append.mpr ⟨hvisits, hlater⟩⟩
        rw [hrun']
        simp only [List.append_assoc]
        rfl

theorem noted {keep : Bool} {subject : Expr} {x : RunInPlace Value} {r : Run Value}
    (hx : Follows deep g p x r) :
    Follows deep g p (RunInPlace.noted keep subject x) (Run.noted keep subject r) := by
  intro w hw
  rcases hx w hw with ⟨hdeep, hnone⟩ | ⟨visits, hrun, hvisits⟩
  · exact Or.inl ⟨hdeep, run_bind_of_none (run_outcomeOf_of_none hnone)⟩
  · refine Or.inr ⟨visits, ?_, hvisits⟩
    rw [RunInPlace.noted, run_bind_of_ok (run_outcomeOf hrun), Run.noted]
    cases keep with
    | false => exact run_ofExcept r.result
    | true =>
      refine (run_ofExcept r.result).trans ?_
      simp

/-- The guard of a cell is gone when what it guards has ended, whatever came of it. -/
theorem guarding {a : Address} {x : RunInPlace Value} {r : Run Value}
    (hx : Follows deep (g.insert a) p x r) (ha : a ∉ g) :
    Follows deep g p (RunInPlace.guarding a x) r := by
  intro w hw
  rw [RunInPlace.guarding, run_modify_bind]
  rcases hx { w with guarded := w.guarded.insert a } (hw ▸ rfl) with
    ⟨hdeep, hnone⟩ | ⟨visits, hrun, hvisits⟩
  · exact Or.inl ⟨hdeep, run_bind_of_none (run_outcomeOf_of_none hnone)⟩
  · refine Or.inr ⟨visits, ?_, hvisits⟩
    have herase : (g.insert a).erase a = g := by
      apply Std.ExtTreeSet.ext_mem
      intro b
      grind
    rw [run_bind_of_ok (run_outcomeOf hrun), run_modify_bind, run_ofExcept, herase]

theorem visit {v : Visit} {k : Unit → RunInPlace α} (hv : p v) (hk : Follows deep g p (k ()) r) :
    Follows deep g p (RunInPlace.visit v >>= k) r := by
  intro w hw
  rw [RunInPlace.visit, run_modify_bind]
  rcases hk { w with visits := w.visits ++ [v] } hw with hnone | ⟨visits, hrun, hvisits⟩
  · exact Or.inl hnone
  · refine Or.inr ⟨v :: visits, ?_, List.forall_mem_cons.mpr ⟨hv, hvisits⟩⟩
    rw [hrun, List.append_assoc]
    rfl

theorem get {k : Workspace → RunInPlace α}
    (hk : ∀ w : Workspace, w.guarded = g → Follows deep g p (k w) r) :
    Follows deep g p (MonadState.get >>= k) r :=
  fun w hw => hk w hw w hw

theorem forEach {f : Nat → RunInPlace β} {f' : Nat → Run β}
    (h : ∀ i, Follows deep g p (f i) (f' i)) (start count : Nat) :
    Follows deep g p (RunInPlace.forEach f start count) (Run.forEach f' start count) := by
  induction count generalizing start with
  | zero => exact pure []
  | succ count ih => exact (h start).bind fun b => (ih (start + 1)).bind fun bs => pure (b :: bs)

end Follows

end RunInPlace

open RunInPlace

section

variable {deep : Prop} {g : AddressSet} {p : Visit → Prop}

/-- Both show the same sheet, and a read in place follows the other one. -/
structure SurroundingsInPlace.Follows (deep : Prop) (g : AddressSet) (p : Visit → Prop)
    (env : SurroundingsInPlace) (env' : Surroundings) : Prop where
  read : ∀ a, (env.read a).Follows deep g p (env'.read a)
  contains : env.contains = env'.contains
  traced : env.traced = env'.traced

variable {env : SurroundingsInPlace} {env' : Surroundings}

theorem SurroundingsInPlace.Follows.readRect (h : env.Follows deep g p env') (r : Rect) :
    (env.readRect r).Follows deep g p (env'.readRect r) := by
  rw [SurroundingsInPlace.readRect, Surroundings.readRect, h.contains]
  split
  · refine (Follows.forEach (fun row => ?_) _ _).bind fun rows => .pure _
    exact Follows.forEach (fun col => h.read ⟨row, col⟩) _ _
  · exact .throw _

mutual

theorem Expr.follows_evalInPlace (h : env.Follows deep g p env') (e : Expr) :
    (e.evalInPlace env).Follows deep g p (e.eval env') := by
  cases e with
  | number x =>
    rw [Expr.evalInPlace, Expr.eval]
    exact .pure _
  | text t =>
    rw [Expr.evalInPlace, Expr.eval]
    exact .pure _
  | bool b =>
    rw [Expr.evalInPlace, Expr.eval]
    exact .pure _
  | ref r =>
    rw [Expr.evalInPlace, Expr.eval]
    exact h.read r.address
  | range first last =>
    rw [Expr.evalInPlace, Expr.eval]
    exact .throw _
  | call f args =>
    rw [Expr.evalInPlace, Expr.eval, h.traced]
    refine Follows.noted ?_
    cases Builtin.lookup? f with
    | none => exact .throw _
    | some builtin =>
      refine (Follows.ofExcept _).bind fun _ => ?_
      exact (Expr.follows_evalArgumentsInPlace h _ args).bind fun values => .pure _
  | binary op left right =>
    rw [Expr.evalInPlace, Expr.eval, h.traced]
    refine (Expr.follows_evalInPlace h left).bind fun x => ?_
    exact (Expr.follows_evalInPlace h right).bind fun y => .noted (.ofExcept _)
  | neg operand =>
    rw [Expr.evalInPlace, Expr.eval, h.traced]
    exact (Expr.follows_evalInPlace h operand).bind fun x => .noted (.pure _)

theorem Expr.follows_evalArgumentsInPlace (h : env.Follows deep g p env') (ranges : Bool)
    (es : List Expr) :
    (Expr.evalArgumentsInPlace env ranges es).Follows deep g p
      (Expr.evalArguments env' ranges es) := by
  cases es with
  | nil =>
    rw [Expr.evalArgumentsInPlace, Expr.evalArguments]
    exact .pure _
  | cons e es =>
    have hlater : ∀ here : List Value, Follows deep g p
        (do let later ← Expr.evalArgumentsInPlace env ranges es; return here ++ later)
        (do let later ← Expr.evalArguments env' ranges es; return here ++ later) :=
      fun here => (Expr.follows_evalArgumentsInPlace h ranges es).bind fun later => .pure _
    -- Only a range that is accepted as one is read cell by cell.
    by_cases hrange : ∃ first last, e = .range first last ∧ ranges = true
    · obtain ⟨first, last, rfl, rfl⟩ := hrange
      rw [Expr.evalArgumentsInPlace, Expr.evalArguments]
      exact (h.readRect _).bind hlater
    · have hplain : ∀ first last, e = .range first last → ranges = true → False :=
        fun first last he hr => hrange ⟨first, last, he, hr⟩
      rw [Expr.evalArgumentsInPlace, Expr.evalArguments]
      · exact (Expr.follows_evalInPlace h e).bind fun v => (Follows.pure [v]).bind hlater
      · exact hplain
      · exact hplain

end

theorem Cell.follows_readInPlace (h : env.Follows deep g p env') (a : Address) (c : Option Cell) :
    (Cell.readInPlace env a c).Follows deep g p (Cell.read env' a c) := by
  unfold Cell.readInPlace Cell.read
  split
  · exact .pure _
  · exact .pure _
  · exact .throw _
  · exact .throw _
  · exact Expr.follows_evalInPlace h _

end

end Recalc
