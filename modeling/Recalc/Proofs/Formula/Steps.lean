import Recalc.Formula.Reader

namespace Recalc

/-- What an operand becomes behind which everything is complete that binds as tightly as
`strength`. -/
def Frame.complete (strength : Nat) (e : Expr) (frames : List Frame) : Expr × List Frame :=
  close strength (negate e frames).1 (negate e frames).2

namespace Reader

/-- What a lexeme does where an operand has to come. -/
inductive Begins (frames : List Frame) : Lexeme → State → Prop
  | negation : Begins frames (.operator .sub) ⟨.negation :: frames, .operand⟩
  | group : Begins frames .leftParen ⟨.group :: frames, .operand⟩
  | number (x : Float) : Begins frames (.number x) ⟨frames, .operator (.number x)⟩
  | text (s : String) : Begins frames (.text s) ⟨frames, .operator (.text s)⟩
  | bool (b : Bool) : Begins frames (.bool b) ⟨frames, .operator (.bool b)⟩
  | reference {s : String} {r : Reference} (hr : Reference.decode s = .ok r) :
      Begins frames (.cell s) ⟨frames, .reference r⟩
  | callee (f : String) : Begins frames (.name f) ⟨frames, .callee f⟩

/-- What a lexeme does behind the operand `e`. -/
inductive Continues (frames : List Frame) (e : Expr) : Lexeme → State → Prop
  | operator {op : Operator} {left : Expr} {rest : List Frame}
      (h : Frame.complete op.strength e frames = (left, rest)) :
      Continues frames e (.operator op) ⟨.leftOf op left :: rest, .operand⟩
  | group {inner : Expr} {rest : List Frame}
      (h : Frame.complete 0 e frames = (inner, .group :: rest)) :
      Continues frames e .rightParen ⟨rest, .operator inner⟩
  | lastArgument {f : String} {args : List Expr} {arg : Expr} {rest : List Frame}
      (h : Frame.complete 0 e frames = (arg, .call f args :: rest)) :
      Continues frames e .rightParen ⟨rest, .operator (.call f (args ++ [arg]))⟩
  | argument {f : String} {args : List Expr} {arg : Expr} {rest : List Frame}
      (h : Frame.complete 0 e frames = (arg, .call f args :: rest)) :
      Continues frames e .comma ⟨.call f (args ++ [arg]) :: rest, .operand⟩

/-- The operand `e` stands at the end of what has been read, inside of `frames`. -/
inductive State.Behind : State → List Frame → Expr → Prop
  | whole {frames : List Frame} {e : Expr} : Behind ⟨frames, .operator e⟩ frames e
  | reference {frames : List Frame} {r : Reference} : Behind ⟨frames, .reference r⟩ frames (.ref r)

inductive Step : State → Lexeme → State → Prop
  | operand {frames : List Frame} {l : Lexeme} {s : State} (h : Begins frames l s) :
      Step ⟨frames, .operand⟩ l s
  | firstArgument {frames : List Frame} {l : Lexeme} {s : State} (h : Begins frames l s) :
      Step ⟨frames, .firstArgument⟩ l s
  | noArgument {f : String} {args : List Expr} {frames : List Frame} :
      Step ⟨.call f args :: frames, .firstArgument⟩ .rightParen ⟨frames, .operator (.call f args)⟩
  | arguments {f : String} {frames : List Frame} :
      Step ⟨frames, .callee f⟩ .leftParen ⟨.call f [] :: frames, .firstArgument⟩
  | colon {r : Reference} {frames : List Frame} :
      Step ⟨frames, .reference r⟩ .colon ⟨frames, .rangeEnd r⟩
  | rangeEnd {first last : Reference} {s : String} {frames : List Frame}
      (hlast : Reference.decode s = .ok last) :
      Step ⟨frames, .rangeEnd first⟩ (.cell s) ⟨frames, .operator (.range first last)⟩
  | behind {s s' : State} {frames : List Frame} {e : Expr} {l : Lexeme}
      (hs : s.Behind frames e) (h : Continues frames e l s') : Step s l s'

variable {frames : List Frame} {e : Expr} {s s' : State} {t : Token}

theorem startOperand_eq_ok_iff : startOperand frames t = .ok s ↔ Begins frames t.lexeme s := by
  obtain ⟨l, pos⟩ := t
  constructor
  · intro h
    cases l with
    | number | text | bool | name | leftParen =>
      cases Except.ok.inj h
      constructor
    | operator op =>
      cases op with
      | sub =>
        cases Except.ok.inj h
        constructor
      | _ => cases h
    | cell text =>
      simp only [startOperand] at h
      cases hr : Reference.decode text with
      | error err =>
        rw [hr] at h
        cases h
      | ok r =>
        rw [hr] at h
        cases Except.ok.inj h
        exact .reference hr
    | rightParen | comma | colon => cases h
  · intro h
    cases h with
    | reference hr =>
      simp only [startOperand, hr]
      rfl
    | _ => rfl

theorem continueAfter_eq_ok_iff :
    continueAfter frames e t = .ok s ↔ Continues frames e t.lexeme s := by
  obtain ⟨l, pos⟩ := t
  constructor
  · intro h
    cases l with
    | operator op =>
      cases Except.ok.inj h
      exact .operator rfl
    | rightParen =>
      simp only [continueAfter] at h
      split at h
      next hc =>
        cases Except.ok.inj h
        exact .group hc
      next hc =>
        cases Except.ok.inj h
        exact .lastArgument hc
      next => cases h
    | comma =>
      simp only [continueAfter] at h
      split at h
      next hc =>
        cases Except.ok.inj h
        exact .argument hc
      next => cases h
    | number | text | bool | cell | name | leftParen | colon => cases h
  · intro h
    cases h with
    | operator h =>
      simp only [Frame.complete] at h
      simp only [continueAfter, h]
    | group h | lastArgument h | argument h =>
      simp only [Frame.complete] at h
      simp only [continueAfter, h]

theorem next_eq_ok_iff : s.next t = .ok s' ↔ Step s t.lexeme s' := by
  obtain ⟨frames, phase⟩ := s
  constructor
  · intro h
    cases phase with
    | operand => exact .operand (startOperand_eq_ok_iff.mp h)
    | firstArgument =>
      simp only [State.next] at h
      split at h
      next hl =>
        cases Except.ok.inj h
        rw [hl]
        exact .noArgument
      next => exact .firstArgument (startOperand_eq_ok_iff.mp h)
    | callee f =>
      simp only [State.next] at h
      split at h
      next hl =>
        cases Except.ok.inj h
        rw [hl]
        exact .arguments
      next => cases h
    | reference first =>
      simp only [State.next] at h
      split at h
      next hl =>
        cases Except.ok.inj h
        rw [hl]
        exact .colon
      next => exact .behind .reference (continueAfter_eq_ok_iff.mp h)
    | rangeEnd first =>
      simp only [State.next] at h
      split at h
      next text hl =>
        cases hr : Reference.decode text with
        | error err =>
          rw [hr] at h
          cases h
        | ok last =>
          rw [hr] at h
          cases Except.ok.inj h
          rw [hl]
          exact .rangeEnd hr
      next => cases h
    | operator e => exact .behind .whole (continueAfter_eq_ok_iff.mp h)
  · obtain ⟨l, pos⟩ := t
    intro h
    cases h with
    | operand h => exact startOperand_eq_ok_iff.mpr h
    | firstArgument h =>
      have hstart := startOperand_eq_ok_iff (t := ⟨l, pos⟩).mpr h
      cases h <;> exact hstart
    | noArgument | arguments | colon => rfl
    | rangeEnd hlast =>
      simp only [State.next, hlast]
      rfl
    | behind hs h =>
      have hafter := continueAfter_eq_ok_iff (t := ⟨l, pos⟩).mpr h
      cases hs with
      | whole => exact hafter
      | reference => cases h <;> exact hafter

/-- The lexemes lead from one state to the other. -/
inductive Steps : State → List Lexeme → State → Prop
  | nil {s : State} : Steps s [] s
  | cons {s s' s'' : State} {l : Lexeme} {ls : List Lexeme} (h : Step s l s')
      (hrest : Steps s' ls s'') : Steps s (l :: ls) s''

theorem Steps.append {s s' s'' : State} {ls ls' : List Lexeme} (h : Steps s ls s')
    (h' : Steps s' ls' s'') : Steps s (ls ++ ls') s'' := by
  induction h with
  | nil => exact h'
  | cons hstep _ ih => exact .cons hstep (ih h')

/-- Nothing is left open about how lexemes are read. -/
theorem Steps.unique {s s' s'' : State} {ls : List Lexeme} (h : Steps s ls s')
    (h' : Steps s ls s'') : s' = s'' := by
  induction h with
  | nil =>
    cases h' with
    | nil => rfl
  | @cons _ _ _ l _ hstep _ ih =>
    cases h' with
    | cons hstep' hrest' =>
      have hnext := next_eq_ok_iff (t := ⟨l, 0⟩).mpr hstep
      have hnext' := next_eq_ok_iff (t := ⟨l, 0⟩).mpr hstep'
      obtain rfl := Except.ok.inj (hnext.symm.trans hnext')
      exact ih hrest'

theorem Steps.single {s s' : State} {l : Lexeme} (h : Step s l s') : Steps s [l] s' :=
  .cons h .nil

/-- The tokens are read to their end if and only if nothing stops the reading of their text, their
lexemes are read one after another, and the formula is whole then. -/
theorem run_eq_ok_iff {stop : Stop} {tokens : List Token} :
    run stop s tokens = .ok e ↔ ∃ pos s', stop = .finished pos ∧
      Steps s (tokens.map (·.lexeme)) s' ∧ s'.finish? = some e := by
  induction tokens generalizing s with
  | nil =>
    cases stop with
    | broken err =>
      constructor
      · intro h
        cases h
      · rintro ⟨pos, _, h, _⟩
        cases h
    | finished pos =>
      rw [run]
      constructor
      · intro h
        split at h
        next e' he =>
          cases Except.ok.inj h
          exact ⟨pos, s, rfl, .nil, he⟩
        next => cases h
      · rintro ⟨_, _, _, hnil, he⟩
        cases hnil
        simp only [he]
  | cons t tokens ih =>
    rw [run]
    constructor
    · intro h
      split at h
      next s₁ hs =>
        obtain ⟨pos, s', hstop, hsteps, he⟩ := ih.mp h
        exact ⟨pos, s', hstop, .cons (next_eq_ok_iff.mp hs) hsteps, he⟩
      next => cases h
    · rintro ⟨pos, s', hstop, hsteps, he⟩
      cases hsteps with
      | cons hstep hrest =>
        rw [next_eq_ok_iff.mpr hstep]
        exact ih.mpr ⟨pos, s', hstop, hrest, he⟩

theorem finish?_eq_some_iff {result : Expr} :
    s.finish? = some result ↔
      ∃ frames e, s.Behind frames e ∧ Frame.complete 0 e frames = (result, []) := by
  obtain ⟨frames, phase⟩ := s
  constructor
  · intro h
    cases phase with
    | reference first =>
      refine ⟨frames, .ref first, .reference, ?_⟩
      simp only [State.finish?] at h
      split at h
      next hc =>
        cases Option.some.inj h
        exact hc
      next => cases h
    | operator e =>
      refine ⟨frames, e, .whole, ?_⟩
      simp only [State.finish?] at h
      split at h
      next hc =>
        cases Option.some.inj h
        exact hc
      next => cases h
    | operand | firstArgument | callee | rangeEnd => cases h
  · rintro ⟨_, e, hs, hc⟩
    simp only [Frame.complete] at hc
    cases hs with
    | whole => simp only [State.finish?, hc]
    | reference => simp only [State.finish?, hc]

end Reader

end Recalc
