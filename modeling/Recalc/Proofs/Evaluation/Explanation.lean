import Recalc.Proofs.Evaluation.Guard
import Recalc.Proofs.Evaluation.Transparency

namespace Recalc

/-- A line of an explanation: a part of a formula or a cell, and what it came to. -/
structure Line where
  expression : String
  result : String
deriving DecidableEq

def Step.line (step : Step) : Line := ⟨step.expression, step.result⟩

theorem Step.line_of_ok (e : Expr) (v : Value) :
    (Step.mk e (.ok v)).line = ⟨e.toText, v.toText⟩ := rfl

theorem Expr.toText_ref (r : Reference) : (Expr.ref r).toText = r.text := by
  rw [Expr.toText, Expr.lexemes, List.flatMap_singleton, Lexeme.chars, String.ofList_toList]

/-- What is evaluated for an argument: a range, where it is accepted, cell by cell. -/
def Expr.operands (ranges : Bool) (e : Expr) : List Expr :=
  match e, ranges with
  | range first last, true =>
    (Rect.spanning first.address last.address).cells.map fun a => ref ⟨a, ⟨false, false⟩⟩
  | e, _ => [e]

/-- A part of a formula with its value, and the lines that lead to it. -/
structure Explained where
  part : Expr
  value : Value
  lines : List Line

namespace Sheet

/-- The value of a formula and the lines that explain it, those of its parts before its own. A
reference is explained by the formula of its cell. -/
inductive Explains (s : Sheet) : Expr → Value → List Line → Prop
  | number (x : Float) : Explains s (.number x) (.number x) []
  | text (t : String) : Explains s (.text t) (.text t) []
  | bool (b : Bool) : Explains s (.bool b) (.bool b) []
  | blank {r : Reference} (hin : s.contains r.address = true) (hcell : s.get? r.address = none) :
      Explains s (.ref r) .null [⟨r.address.text, Value.null.toText⟩]
  | literal {r : Reference} {v : Value} (hin : s.contains r.address = true)
      (hcell : s.get? r.address = some (.literal v)) :
      Explains s (.ref r) v [⟨r.address.text, v.toText⟩]
  | formula {r : Reference} {source : String} {e : Expr} {v : Value} {lines : List Line}
      (hin : s.contains r.address = true)
      (hcell : s.get? r.address = some (.formula source (some e))) (h : Explains s e v lines) :
      Explains s (.ref r) v (lines ++ [⟨r.address.text, v.toText⟩])
  | call {f : String} {args : List Expr} {builtin : Builtin} {parts : List Explained}
      (hf : Builtin.lookup? f = some builtin)
      (hcount : builtin.checkArity f args.length = .ok ())
      (hparts : parts.map (·.part) = args.flatMap (Expr.operands builtin.acceptsRanges))
      (h : ∀ p ∈ parts, Explains s p.part p.value p.lines) :
      Explains s (.call f args) (builtin.apply (parts.map (·.value)))
        (parts.flatMap (·.lines) ++
          [⟨(Expr.call f args).toText, (builtin.apply (parts.map (·.value))).toText⟩])
  | binary {op : Operator} {left right : Expr} {x y v : Value} {before after : List Line}
      (hleft : Explains s left x before) (hright : Explains s right y after)
      (hop : op.apply x y = .ok v) :
      Explains s (.binary op left right) v
        (before ++ after ++ [⟨(Expr.binary op left right).toText, v.toText⟩])
  | neg {operand : Expr} {x : Value} {lines : List Line} (h : Explains s operand x lines) :
      Explains s (.neg operand) (.number (-x.toNumber))
        (lines ++ [⟨(Expr.neg operand).toText, (Value.number (-x.toNumber)).toText⟩])

variable {s : Sheet}

theorem explained_unique {parts parts' : List Explained}
    (hparts : parts.map (·.part) = parts'.map (·.part))
    (hunique : ∀ p ∈ parts, ∀ w lines, s.Explains p.part w lines → p.value = w ∧ p.lines = lines)
    (h : ∀ p ∈ parts', s.Explains p.part p.value p.lines) : parts = parts' := by
  induction parts generalizing parts' with
  | nil => exact (List.map_eq_nil_iff.mp hparts.symm).symm
  | cons p parts ih =>
    obtain ⟨q, parts', rfl, hpart, hrest⟩ := List.map_eq_cons_iff.mp hparts.symm
    have hq := h q List.mem_cons_self
    rw [hpart] at hq
    obtain ⟨hvalue, hlines⟩ := hunique p List.mem_cons_self _ _ hq
    have htail := ih hrest.symm (fun p hp => hunique p (List.mem_cons_of_mem _ hp))
      fun p hp => h p (List.mem_cons_of_mem _ hp)
    obtain ⟨part, value, lines⟩ := p
    obtain ⟨part', value', lines'⟩ := q
    cases hpart
    cases hvalue
    cases hlines
    rw [htail]

/-- A formula has one value and one explanation of it. -/
theorem Explains.unique {e : Expr} {v w : Value} {lines lines' : List Line}
    (h : s.Explains e v lines) (h' : s.Explains e w lines') : v = w ∧ lines = lines' := by
  induction h generalizing w lines' with
  | number | text | bool =>
    cases h'
    exact ⟨rfl, rfl⟩
  | blank _ hcell =>
    cases h' with
    | blank => exact ⟨rfl, rfl⟩
    | literal _ hcell' | formula _ hcell' _ => cases hcell.symm.trans hcell'
  | literal _ hcell =>
    cases h' with
    | literal _ hcell' =>
      cases hcell.symm.trans hcell'
      exact ⟨rfl, rfl⟩
    | blank _ hcell' | formula _ hcell' _ => cases hcell.symm.trans hcell'
  | formula _ hcell _ ih =>
    cases h' with
    | blank _ hcell' | literal _ hcell' => cases hcell.symm.trans hcell'
    | formula _ hcell' h' =>
      cases hcell.symm.trans hcell'
      obtain ⟨rfl, rfl⟩ := ih h'
      exact ⟨rfl, rfl⟩
  | call hf _ hparts _ ih =>
    cases h' with
    | call hf' _ hparts' h' =>
      cases hf.symm.trans hf'
      cases explained_unique (hparts.trans hparts'.symm) (fun p hp _ _ => ih p hp) h'
      exact ⟨rfl, rfl⟩
  | binary _ _ hop ihleft ihright =>
    cases h' with
    | binary hleft hright hop' =>
      obtain ⟨rfl, rfl⟩ := ihleft hleft
      obtain ⟨rfl, rfl⟩ := ihright hright
      cases hop.symm.trans hop'
      exact ⟨rfl, rfl⟩
  | neg _ ih =>
    cases h' with
    | neg h' =>
      obtain ⟨rfl, rfl⟩ := ih h'
      exact ⟨rfl, rfl⟩

/-- The formulas come to the values one after another, which the lines explain. -/
def ExplainsAll (s : Sheet) (es : List Expr) (vs : List Value) (lines : List Line) : Prop :=
  ∃ parts : List Explained, parts.map (·.part) = es ∧ parts.map (·.value) = vs ∧
    parts.flatMap (·.lines) = lines ∧ ∀ p ∈ parts, s.Explains p.part p.value p.lines

theorem explainsAll_nil : s.ExplainsAll [] [] [] := ⟨[], rfl, rfl, rfl, by simp⟩

theorem Explains.all {e : Expr} {v : Value} {lines : List Line} (h : s.Explains e v lines) :
    s.ExplainsAll [e] [v] lines :=
  ⟨[⟨e, v, lines⟩], rfl, rfl, by simp, by simpa using h⟩

theorem ExplainsAll.append {es es' : List Expr} {vs vs' : List Value} {lines lines' : List Line}
    (h : s.ExplainsAll es vs lines) (h' : s.ExplainsAll es' vs' lines') :
    s.ExplainsAll (es ++ es') (vs ++ vs') (lines ++ lines') := by
  obtain ⟨parts, rfl, rfl, rfl, hparts⟩ := h
  obtain ⟨parts', rfl, rfl, rfl, hparts'⟩ := h'
  refine ⟨parts ++ parts', by simp, by simp, by simp, fun p hp => ?_⟩
  rcases List.mem_append.mp hp with hp | hp
  · exact hparts p hp
  · exact hparts' p hp

end Sheet

namespace Run

variable {α β : Type}

theorem bind_eq_mk_ok {r : Run α} {f : α → Run β} {b : β} {steps : List Step}
    (h : r >>= f = ⟨.ok b, steps⟩) :
    ∃ a before after, r = ⟨.ok a, before⟩ ∧ f a = ⟨.ok b, after⟩ ∧ steps = before ++ after := by
  obtain ⟨result, before⟩ := r
  cases result with
  | error e => cases h
  | ok a =>
    rw [ok_bind] at h
    generalize hnext : f a = next at h
    obtain ⟨result', after⟩ := next
    cases h
    exact ⟨a, before, after, rfl, hnext, rfl⟩

theorem pure_eq_mk_ok {a b : α} {steps : List Step} (h : (pure a : Run α) = ⟨.ok b, steps⟩) :
    a = b ∧ steps = [] := by
  cases h
  exact ⟨rfl, rfl⟩

theorem ofExcept_eq_mk_ok {x : Except EvalError α} {a : α} {steps : List Step}
    (h : ofExcept x = ⟨.ok a, steps⟩) : x = .ok a ∧ steps = [] := by
  cases h
  exact ⟨rfl, rfl⟩

theorem noted_eq_mk_ok {subject : Expr} {r : Run Value} {v : Value} {steps : List Step}
    (h : noted true subject r = ⟨.ok v, steps⟩) :
    ∃ before, r = ⟨.ok v, before⟩ ∧ steps = before ++ [⟨subject, .ok v⟩] := by
  obtain ⟨result, before⟩ := r
  cases h
  exact ⟨before, rfl, rfl⟩

end Run

/-- Steps are kept, and those of a read explain its value on the sheet. -/
structure Surroundings.Explaining (env : Surroundings) (s : Sheet) : Prop where
  traced : env.traced = true
  read : ∀ {r : Reference} {v : Value} {steps : List Step},
    env.read r.address = ⟨.ok v, steps⟩ → s.Explains (.ref r) v (steps.map Step.line)

namespace Expr

variable {s : Sheet} {env : Surroundings}

theorem explainsAll_of_mapM (henv : env.Explaining s) {as : List Address} {vs : List Value}
    {steps : List Step} (h : as.mapM env.read = ⟨.ok vs, steps⟩) :
    s.ExplainsAll (as.map fun a => .ref ⟨a, ⟨false, false⟩⟩) vs (steps.map Step.line) := by
  induction as generalizing vs steps with
  | nil =>
    obtain ⟨rfl, rfl⟩ := Run.pure_eq_mk_ok h
    exact Sheet.explainsAll_nil
  | cons a as ih =>
    rw [List.mapM_cons] at h
    obtain ⟨v, before, _, hfirst, hnext, rfl⟩ := Run.bind_eq_mk_ok h
    obtain ⟨ws, after, _, hrest, hpure, rfl⟩ := Run.bind_eq_mk_ok hnext
    obtain ⟨rfl, rfl⟩ := Run.pure_eq_mk_ok hpure
    have hhead := (henv.read (r := ⟨a, ⟨false, false⟩⟩) hfirst).all
    simpa using hhead.append (ih hrest)

theorem explainsAll_of_evalArgument (henv : env.Explaining s) {ranges : Bool} {e : Expr}
    (heval : ∀ v steps, e.eval env = ⟨.ok v, steps⟩ → s.Explains e v (steps.map Step.line))
    {vs : List Value} {steps : List Step} (h : evalArgument env ranges e = ⟨.ok vs, steps⟩) :
    s.ExplainsAll (e.operands ranges) vs (steps.map Step.line) := by
  fun_cases operands ranges e with
  | case1 first last =>
    rw [evalArgument] at h
    have hin : env.contains (Rect.spanning first.address last.address).bottomRight = true := by
      refine Bool.of_not_eq_false fun hout => ?_
      rw [Surroundings.readRect, hout] at h
      cases h
    rw [Surroundings.readRect_eq_mapM hin] at h
    exact explainsAll_of_mapM henv h
  | case2 _ _ hplain =>
    rw [evalArgument] at h
    · obtain ⟨v, before, _, hvalue, hpure, rfl⟩ := Run.bind_eq_mk_ok h
      obtain ⟨rfl, rfl⟩ := Run.pure_eq_mk_ok hpure
      simpa using (heval v before hvalue).all
    · exact hplain

mutual

theorem explains_of_eval (henv : env.Explaining s) (e : Expr) {v : Value} {steps : List Step}
    (h : e.eval env = ⟨.ok v, steps⟩) : s.Explains e v (steps.map Step.line) := by
  cases e with
  | number | text | bool =>
    rw [eval] at h
    obtain ⟨rfl, rfl⟩ := Run.pure_eq_mk_ok h
    constructor
  | ref r =>
    rw [eval] at h
    exact henv.read h
  | range first last =>
    rw [eval] at h
    cases h
  | call f args =>
    rw [eval, henv.traced] at h
    obtain ⟨before, hcall, rfl⟩ := Run.noted_eq_mk_ok h
    split at hcall
    next => cases hcall
    next builtin hf =>
      obtain ⟨_, _, _, hcount, hnext, rfl⟩ := Run.bind_eq_mk_ok hcall
      obtain ⟨vs, lines, _, hargs, hpure, rfl⟩ := Run.bind_eq_mk_ok hnext
      obtain ⟨rfl, rfl⟩ := Run.pure_eq_mk_ok hpure
      obtain ⟨harity, rfl⟩ := Run.ofExcept_eq_mk_ok hcount
      obtain ⟨parts, hparts, rfl, hlines, hexplains⟩ :=
        explainsAll_of_evalArguments henv builtin.acceptsRanges args hargs
      have hwhole := Sheet.Explains.call hf harity hparts hexplains
      rw [hlines] at hwhole
      simpa [Step.line_of_ok] using hwhole
  | binary op left right =>
    rw [eval, henv.traced] at h
    obtain ⟨x, before, _, hleft, hnext, rfl⟩ := Run.bind_eq_mk_ok h
    obtain ⟨y, after, _, hright, hnoted, rfl⟩ := Run.bind_eq_mk_ok hnext
    obtain ⟨_, happly, rfl⟩ := Run.noted_eq_mk_ok hnoted
    obtain ⟨hop, rfl⟩ := Run.ofExcept_eq_mk_ok happly
    have hwhole := Sheet.Explains.binary (explains_of_eval henv left hleft)
      (explains_of_eval henv right hright) hop
    simpa [Step.line_of_ok] using hwhole
  | neg operand =>
    rw [eval, henv.traced] at h
    obtain ⟨x, before, _, hoperand, hnoted, rfl⟩ := Run.bind_eq_mk_ok h
    obtain ⟨_, hpure, rfl⟩ := Run.noted_eq_mk_ok hnoted
    obtain ⟨rfl, rfl⟩ := Run.pure_eq_mk_ok hpure
    have hwhole := (explains_of_eval henv operand hoperand).neg
    simpa [Step.line_of_ok] using hwhole

theorem explainsAll_of_evalArguments (henv : env.Explaining s) (ranges : Bool) (es : List Expr)
    {vs : List Value} {steps : List Step} (h : evalArguments env ranges es = ⟨.ok vs, steps⟩) :
    s.ExplainsAll (es.flatMap (operands ranges)) vs (steps.map Step.line) := by
  cases es with
  | nil =>
    rw [evalArguments] at h
    obtain ⟨rfl, rfl⟩ := Run.pure_eq_mk_ok h
    exact Sheet.explainsAll_nil
  | cons e es =>
    rw [evalArguments_cons] at h
    obtain ⟨here, before, _, hhere, hnext, rfl⟩ := Run.bind_eq_mk_ok h
    obtain ⟨later, after, _, hlater, hpure, rfl⟩ := Run.bind_eq_mk_ok hnext
    obtain ⟨rfl, rfl⟩ := Run.pure_eq_mk_ok hpure
    have hhead := explainsAll_of_evalArgument henv
      (fun _ _ hvalue => explains_of_eval henv e hvalue) hhere
    have hwhole := hhead.append (explainsAll_of_evalArguments henv ranges es hlater)
    simpa using hwhole

end

end Expr

namespace Sheet

variable {s : Sheet} {policy : Policy}

/-- The steps of a reading explain its value, whatever cells wait for it. -/
theorem explains_of_readCell {active : AddressSet} {r : Reference} {v : Value} {steps : List Step}
    (h : s.readCell true active r.address = ⟨.ok v, steps⟩) :
    s.Explains (.ref r) v (steps.map Step.line) := by
  induction hn : (AddressMap.outside s.cells active).length using Nat.strongRecOn
    generalizing active r v steps with
  | ind n ih =>
    have hin := contains_of_readCell_ok (congrArg Run.result h)
    have hnot := not_active_of_readCell_ok (congrArg Run.result h)
    rw [readCell_eq, hin, if_neg hnot] at h
    obtain ⟨before, hcell, rfl⟩ := Run.noted_eq_mk_ok h
    rw [List.map_append, List.map_singleton, Step.line_of_ok, Expr.toText_ref]
    cases hc : s.get? r.address with
    | none =>
      rw [hc] at hcell
      obtain ⟨rfl, rfl⟩ := Run.pure_eq_mk_ok hcell
      exact .blank hin hc
    | some c =>
      rw [hc] at hcell
      cases c with
      | literal w =>
        obtain ⟨rfl, rfl⟩ := Run.pure_eq_mk_ok hcell
        exact .literal hin hc
      | error f => cases hcell
      | formula source expr =>
        cases expr with
        | none => cases hcell
        | some e =>
          -- One cell more waits, so fewer are left to do so.
          have hless := AddressMap.outside_insert_lt (mem_cells_of_get? hc) hnot
          have henv : (s.surroundings true (active.insert r.address)).Explaining s :=
            ⟨rfl, fun hread => ih _ (hn ▸ hless) hread rfl⟩
          exact .formula hin hc (Expr.explains_of_eval henv e hcell)

theorem explains_of_evaluateExpr {active : AddressSet} {e : Expr} {v : Value}
    (h : (s.evaluateExpr policy true active e).outcome = .ok v) :
    ∃ steps, (s.evaluateExpr policy true active e).explain = some steps ∧
      ∀ w lines, s.Explains e w lines ↔ w = v ∧ lines = steps.map Step.line := by
  rcases hrun : e.eval (s.surroundings true active) with ⟨result, steps⟩
  rw [evaluateExpr, hrun] at h ⊢
  cases result with
  | error err => cases h
  | ok u =>
    cases h
    have hexplains := Expr.explains_of_eval ⟨rfl, explains_of_readCell⟩ e hrun
    refine ⟨steps, rfl, fun w lines => ⟨fun hother => ?_, ?_⟩⟩
    · exact hother.unique hexplains
    · rintro ⟨rfl, rfl⟩
      exact hexplains

/-- An explanation lists the steps of an evaluation, those of the parts before those of the whole,
and leaves its outcome as it is. -/
theorem explanation_is_postorder (s : Sheet) (policy : Policy) :
    (∀ a, (s.evaluateCell policy a true).outcome = (s.evaluateCell policy a false).outcome) ∧
      (∀ source, (s.evaluateFormula policy source true).outcome =
        (s.evaluateFormula policy source false).outcome) ∧
      (∀ a e v, s.Holds a e → (s.evaluateCell policy a true).outcome = .ok v →
        ∃ steps, (s.evaluateCell policy a true).explain = some steps ∧
          ∀ w lines, s.Explains e w lines ↔ w = v ∧ lines = steps.map Step.line) ∧
      ∀ source e v, Expr.read source = .ok e →
        (s.evaluateFormula policy source true).outcome = .ok v →
        ∃ steps, (s.evaluateFormula policy source true).explain = some steps ∧
          ∀ w lines, s.Explains e w lines ↔ w = v ∧ lines = steps.map Step.line := by
  refine ⟨fun a => ?_, fun source => ?_, ?_, ?_⟩
  · rw [outcome_evaluateCell, outcome_evaluateCell, result_readCell_traced s true false]
  · unfold evaluateFormula
    cases Expr.read source with
    | error err => rfl
    | ok e =>
      have hresult : (e.eval (s.surroundings true ∅)).result =
          (e.eval (s.surroundings false ∅)).result :=
        Expr.result_eval_congr (s.surroundings true ∅) (s.surroundings false ∅) rfl e
          fun a _ => result_readCell_traced s true false ∅ a
      exact congrArg (Except.mapError (·.failure policy)) hresult
  · rintro a e v ⟨source, hc⟩ h
    have hread := outcome_evaluateCell s policy a true
    cases hin : s.contains a with
    | false =>
      rw [h, readCell_of_not_contains hin] at hread
      cases hread
    | true =>
      rw [evaluateCell, hin, hc] at h ⊢
      exact explains_of_evaluateExpr h
  · intro source e v he h
    rw [evaluateFormula, he] at h ⊢
    exact explains_of_evaluateExpr h

/-- A cell is read both for itself and for a formula that refers to it. -/
theorem explanation_is_postorder_quartet :
    let e := Expr.call "CONCAT" [.range ⟨⟨0, 0⟩, ⟨false, false⟩⟩ ⟨⟨0, 1⟩, ⟨false, false⟩⟩]
    Expr.read "=CONCAT(A1:B1)" = .ok e ∧
      (quartet.evaluateFormula Policy.standard "=CONCAT(A1:B1)" true).outcome =
        .ok (.text "truetrue") ∧
      quartet.Explains e (.text "truetrue")
        [⟨"A1", "true"⟩, ⟨"A1", "true"⟩, ⟨"B1", "true"⟩, ⟨"CONCAT(A1:B1)", "truetrue"⟩] := by
  intro e
  have hread : Expr.read "=CONCAT(A1:B1)" = .ok e := by
    with_unfolding_all rfl
  have hdepth : quartet.size < 5 := by decide +kernel
  obtain ⟨visits, hrun, -⟩ :=
    exists_evaluateFormulaInPlace quartet Policy.standard true hdepth "=CONCAT(A1:B1)"
  rw [evaluateFormulaInPlace, hread] at hrun
  have houtcome : (quartet.evaluateFormula Policy.standard "=CONCAT(A1:B1)" true).outcome =
      .ok (.text "truetrue") := by
    have hinplace : (quartet.evaluateExprInPlace Policy.standard true 5 [] e).map (·.1.outcome) =
        some (.ok (.text "truetrue")) := rfl
    exact Option.some.inj ((congrArg (Option.map _) hrun.symm).trans hinplace)
  have hshown : (quartet.evaluateFormula Policy.standard "=CONCAT(A1:B1)" true).explain.map
      (·.map Step.line) =
        some [⟨"A1", "true"⟩, ⟨"A1", "true"⟩, ⟨"B1", "true"⟩, ⟨"CONCAT(A1:B1)", "truetrue"⟩] := by
    have hinplace : (quartet.evaluateExprInPlace Policy.standard true 5 [] e).map
        (·.1.explain.map (·.map Step.line)) = some (some [⟨"A1", "true"⟩, ⟨"A1", "true"⟩,
          ⟨"B1", "true"⟩, ⟨"CONCAT(A1:B1)", "truetrue"⟩]) := by decide +kernel
    exact Option.some.inj ((congrArg (Option.map _) hrun.symm).trans hinplace)
  obtain ⟨-, -, -, hformula⟩ := explanation_is_postorder quartet Policy.standard
  obtain ⟨steps, hsteps, hexplains⟩ := hformula _ _ _ hread houtcome
  rw [hsteps] at hshown
  exact ⟨hread, houtcome, (hexplains _ _).mpr ⟨rfl, (Option.some.inj hshown).symm⟩⟩

end Sheet

end Recalc
