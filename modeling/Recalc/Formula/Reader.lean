import Recalc.Formula.Expr

namespace Recalc

/-- What is still open to the left of the token that is read next. -/
inductive Frame
  | negation
  /-- An operator that has its left operand and waits for the right one. -/
  | leftOf (op : Operator) (left : Expr)
  | group
  /-- A call with the arguments that are complete. -/
  | call (name : String) (args : List Expr)

namespace Frame

/-- Give a complete operand to the minuses that wait for it. -/
def negate : Expr → List Frame → Expr × List Frame
  | e, negation :: frames => negate (.neg e) frames
  | e, frames => (e, frames)

/-- Complete the pending operations that bind at least as tightly as `strength`. -/
def close (strength : Nat) : Expr → List Frame → Expr × List Frame
  | e, leftOf op left :: frames =>
    if strength ≤ op.strength then close strength (.binary op left e) frames
    else (e, leftOf op left :: frames)
  | e, frames => (e, frames)

end Frame

namespace Reader

/-- What has just been read, and so what may come next. -/
inductive Phase
  /-- An operand has to come. -/
  | operand
  | firstArgument
  | callee (name : String)
  | reference (first : Reference)
  | rangeEnd (first : Reference)
  /-- A whole operand has been read. -/
  | operator (e : Expr)

structure State where
  frames : List Frame
  phase : Phase

def unexpected (t : Token) : ReadError := .unexpectedToken t.lexeme.described t.pos

/-- Where an operand has to come. -/
def startOperand (frames : List Frame) (t : Token) : Except ReadError State :=
  match t.lexeme with
  | .operator .sub => .ok ⟨.negation :: frames, .operand⟩
  | .leftParen => .ok ⟨.group :: frames, .operand⟩
  | .number x => .ok ⟨frames, .operator (.number x)⟩
  | .text s => .ok ⟨frames, .operator (.text s)⟩
  | .bool b => .ok ⟨frames, .operator (.bool b)⟩
  | .cell s => (Reference.decode s).map fun r => ⟨frames, .reference r⟩
  | .name f => .ok ⟨frames, .callee f⟩
  | _ => .error (unexpected t)

/-- Where the operand `e` has been read. -/
def continueAfter (frames : List Frame) (e : Expr) (t : Token) : Except ReadError State :=
  let (e, frames) := Frame.negate e frames
  match t.lexeme with
  | .operator op =>
    let (e, frames) := Frame.close op.strength e frames
    .ok ⟨.leftOf op e :: frames, .operand⟩
  | .rightParen =>
    match Frame.close 0 e frames with
    | (e, .group :: frames) => .ok ⟨frames, .operator e⟩
    | (e, .call f args :: frames) => .ok ⟨frames, .operator (.call f (args ++ [e]))⟩
    | _ => .error (unexpected t)
  | .comma =>
    match Frame.close 0 e frames with
    | (e, .call f args :: frames) => .ok ⟨.call f (args ++ [e]) :: frames, .operand⟩
    | _ => .error (unexpected t)
  | _ => .error (unexpected t)

def State.next (s : State) (t : Token) : Except ReadError State :=
  match s.phase with
  | .operand => startOperand s.frames t
  | .firstArgument =>
    match t.lexeme, s.frames with
    | .rightParen, .call f args :: frames => .ok ⟨frames, .operator (.call f args)⟩
    | _, _ => startOperand s.frames t
  | .callee f =>
    match t.lexeme with
    | .leftParen => .ok ⟨.call f [] :: s.frames, .firstArgument⟩
    | _ => .error (unexpected t)
  | .reference first =>
    match t.lexeme with
    | .colon => .ok ⟨s.frames, .rangeEnd first⟩
    | _ => continueAfter s.frames (.ref first) t
  | .rangeEnd first =>
    match t.lexeme with
    | .cell text =>
      (Reference.decode text).map fun last => ⟨s.frames, .operator (.range first last)⟩
    | _ => .error (unexpected t)
  | .operator e => continueAfter s.frames e t

/-- The formula that has been read when the text ends here, if it is whole. -/
def State.finish? (s : State) : Option Expr :=
  let whole (e : Expr) : Option Expr :=
    let (e, frames) := Frame.negate e s.frames
    match Frame.close 0 e frames with
    | (e, []) => some e
    | _ => none
  match s.phase with
  | .reference first => whole (.ref first)
  | .operator e => whole e
  | _ => none

/-- Where an operand or its second half has to come, a token is judged only after the one behind it
has been read. -/
def Phase.readsAhead : Phase → Bool
  | operand | firstArgument | rangeEnd _ => true
  | callee _ | reference _ | operator _ => false

/-- The error that is reported when `t` is refused and the tokens `behind` it are left. -/
def report (phase : Phase) (behind : List Token) (stop : Stop) (refused : ReadError) : ReadError :=
  match behind, stop with
  | [], .broken e => if phase.readsAhead then e else refused
  | _, _ => refused

def run (stop : Stop) : State → List Token → Except ReadError Expr
  | s, [] =>
    match stop with
    | .broken e => .error e
    | .finished pos =>
      match s.finish? with
      | some e => .ok e
      | none => .error (.unexpectedToken endOfInput pos)
  | s, t :: rest =>
    match s.next t with
    | .ok s => run stop s rest
    | .error e => .error (report s.phase rest stop e)

/-- The formula that the tokens spell. -/
def ofScan (s : Scan) : Except ReadError Expr := run s.stop ⟨[], .operand⟩ s.tokens

end Reader

/-- A formula without the equality sign that may stand in front of it. -/
def formulaBody (source : String) : String :=
  match source.toList with
  | '=' :: cs => String.ofList cs
  | _ => source

def Expr.read (source : String) : Except ReadError Expr :=
  Reader.ofScan (Scan.ofText (formulaBody source))

end Recalc
