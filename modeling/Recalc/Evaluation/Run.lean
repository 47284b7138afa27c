import Recalc.Formula.Builtin
import Recalc.Formula.Expr

namespace Recalc

/-- One part of an evaluation that was carried out, and what came of it. -/
structure Step where
  /-- A part of a formula, or a reference to the cell that was read. -/
  subject : Expr
  outcome : Except EvalError Value

namespace Step

def expression (s : Step) : String := s.subject.toText

def result (s : Step) : String :=
  match s.outcome with
  | .ok v => v.toText
  | .error e => "error: " ++ e.message

end Step

/-- What came of an evaluation, and the steps that were noted on the way, also before an error. -/
structure Run (α : Type) where
  result : Except EvalError α
  steps : List Step

namespace Run

instance : Monad Run where
  pure a := ⟨.ok a, []⟩
  bind r f :=
    match r.result with
    | .ok a =>
      let next := f a
      ⟨next.result, r.steps ++ next.steps⟩
    | .error e => ⟨.error e, r.steps⟩

def fail {α : Type} (e : EvalError) : Run α := ⟨.error e, []⟩

def ofExcept {α : Type} (result : Except EvalError α) : Run α := ⟨result, []⟩

/-- Note the outcome as a step, if steps are kept. -/
def noted (keep : Bool) (subject : Expr) (r : Run Value) : Run Value :=
  if keep then ⟨r.result, r.steps ++ [⟨subject, r.result⟩]⟩ else r

/-- `f` at each of `count` numbers from `start` on, up to the first error. -/
def forEach {β : Type} (f : Nat → Run β) (start : Nat) : Nat → Run (List β)
  | 0 => pure []
  | count + 1 => do
    let b ← f start
    let bs ← forEach f (start + 1) count
    return b :: bs

end Run

end Recalc
