import Recalc.Proofs.Evaluation.Arguments
import Recalc.Proofs.Evaluation.Loops
import Recalc.Proofs.Formula.Scanning

namespace Recalc

/-- What cells come to, where errors are of the kind `ε`. -/
structure Outcomes (ε : Type) where
  cell : Address → Except ε Value
  contains : Address → Bool
  /-- How an error of the evaluation itself is shown. -/
  error : EvalError → ε

/-- What the cells of a rectangle come to, row by row up to the first failure. Where the rectangle
does not end inside the sheet it fails as a whole. -/
def Outcomes.rect {ε : Type} (o : Outcomes ε) (r : Rect) : Except ε (List Value) :=
  if o.contains r.bottomRight then r.cells.mapM o.cell
  else .error (o.error (.outOfBounds r.bottomRight))

namespace Expr

mutual

/-- The value of a formula in which each reference stands for what its cell comes to. -/
def value {ε : Type} (o : Outcomes ε) : Expr → Except ε Value
  | number x => .ok (.number x)
  | text s => .ok (.text s)
  | bool b => .ok (.bool b)
  | ref r => o.cell r.address
  | range first last => .error (o.error (.rangeOutsideFunction (range first last).toText))
  | call f args =>
    match Builtin.lookup? f with
    | none => .error (o.error (.unknownFunction f))
    | some builtin => do
      (builtin.checkArity f args.length).mapError o.error
      let values ← argumentValues o builtin.acceptsRanges args
      return builtin.apply values
  | binary op left right => do
    let x ← value o left
    let y ← value o right
    (op.apply x y).mapError o.error
  | neg operand => do
    let x ← value o operand
    return .number (-x.toNumber)

def argumentValues {ε : Type} (o : Outcomes ε) (ranges : Bool) :
    List Expr → Except ε (List Value)
  | [] => .ok []
  | e :: es => do
    let here ← match e, ranges with
      | range first last, true => o.rect (Rect.spanning first.address last.address)
      | e, _ => do
        let v ← value o e
        pure [v]
    let later ← argumentValues o ranges es
    return here ++ later

end

end Expr

theorem mapError_bind {ε ε' α β : Type} {f : ε → ε'} (x : Except ε α) (g : α → Except ε β) :
    (x >>= g).mapError f = x.mapError f >>= fun a => (g a).mapError f := by
  cases x with
  | error e => rfl
  | ok a => rfl

namespace Run

variable {ε α β : Type} {f : EvalError → ε}

theorem result_bind (r : Run α) (g : α → Run β) :
    (r >>= g).result = r.result >>= fun a => (g a).result := by
  obtain ⟨result, steps⟩ := r
  cases result with
  | error e => rfl
  | ok a => rfl

theorem mapError_forEach (g : Nat → Run β) (start count : Nat) :
    (forEach g start count).result.mapError f =
      (List.range' start count).mapM fun i => (g i).result.mapError f := by
  induction count generalizing start with
  | zero => rfl
  | succ count ih =>
    rw [forEach, List.range'_succ, List.mapM_cons, ← ih]
    simp only [result_bind, mapError_bind]
    rfl

end Run

/-- What a formula sees, its errors shown by `f`. -/
def Surroundings.outcomes {ε : Type} (env : Surroundings) (f : EvalError → ε) : Outcomes ε :=
  ⟨fun a => (env.read a).result.mapError f, env.contains, f⟩

section

variable {ε : Type} {f : EvalError → ε} {env : Surroundings}

theorem Surroundings.mapError_readRect (r : Rect) :
    (env.readRect r).result.mapError f = (env.outcomes f).rect r := by
  rw [Surroundings.readRect, Outcomes.rect]
  change _ = if env.contains r.bottomRight = true then _ else _
  split
  · simp only [Run.result_bind, mapError_bind, Run.mapError_forEach]
    rw [Rect.cells, mapM_flatMap, map_eq_pure_bind]
    simp only [List.mapM_map]
    rfl
  · rfl

mutual

/-- A formula comes to the value that it has over what the cells come to. -/
theorem Expr.mapError_eval (e : Expr) :
    (e.eval env).result.mapError f = e.value (env.outcomes f) := by
  cases e with
  | number | text | bool | range =>
    rw [Expr.eval, Expr.value]
    rfl
  | ref r =>
    rw [Expr.eval, Expr.value]
    rfl
  | call name args =>
    rw [Expr.eval, Expr.value, Run.result_noted]
    cases Builtin.lookup? name with
    | none => rfl
    | some builtin =>
      have hargs := Expr.mapError_evalArguments builtin.acceptsRanges args
      simp only [Run.result_bind, mapError_bind, hargs]
      rfl
  | binary op left right =>
    have hleft := Expr.mapError_eval left
    have hright := Expr.mapError_eval right
    rw [Expr.eval, Expr.value]
    simp only [Run.result_bind, mapError_bind, hleft, hright, Run.result_noted]
    rfl
  | neg operand =>
    have hoperand := Expr.mapError_eval operand
    rw [Expr.eval, Expr.value]
    simp only [Run.result_bind, mapError_bind, hoperand, Run.result_noted]
    rfl

theorem Expr.mapError_evalArguments (ranges : Bool) (es : List Expr) :
    (Expr.evalArguments env ranges es).result.mapError f =
      Expr.argumentValues (env.outcomes f) ranges es := by
  cases es with
  | nil =>
    rw [Expr.evalArguments, Expr.argumentValues]
    rfl
  | cons e es =>
    have hlater := Expr.mapError_evalArguments ranges es
    have hhere := Expr.mapError_eval e
    rw [Expr.evalArguments.eq_def, Expr.argumentValues.eq_def]
    dsimp only
    split
    next first last =>
      simp only [Run.result_bind, mapError_bind, Surroundings.mapError_readRect, hlater]
      rfl
    next =>
      simp only [Run.result_bind, mapError_bind, hhere, hlater]
      rfl

end

end

theorem mapM_congr {ε α β : Type} {l : List α} {g h : α → Except ε β} (heq : ∀ a ∈ l, g a = h a) :
    l.mapM g = l.mapM h := by
  induction l with
  | nil => rfl
  | cons a l ih =>
    have hhead := heq a List.mem_cons_self
    have htail := ih fun b hb => heq b (List.mem_cons_of_mem _ hb)
    rw [List.mapM_cons, List.mapM_cons, hhead, htail]

section

variable {ε : Type} (o o' : Outcomes ε)

theorem Outcomes.rect_congr {r : Rect} (hcontains : o.contains = o'.contains)
    (herror : o.error = o'.error) (hcell : ∀ a, r.Contains a → o.cell a = o'.cell a) :
    o.rect r = o'.rect r := by
  have hcells : r.cells.mapM o.cell = r.cells.mapM o'.cell :=
    mapM_congr fun a ha => hcell a (Rect.mem_cells.mp ha)
  rw [Outcomes.rect, Outcomes.rect, hcontains, herror, hcells]

mutual

/-- The value of a formula depends on the outcomes of the cells that it names only. -/
theorem Expr.value_congr (hcontains : o.contains = o'.contains) (herror : o.error = o'.error)
    (e : Expr) (hcell : ∀ a, e.Names a → o.cell a = o'.cell a) : e.value o = e.value o' := by
  cases e with
  | number | text | bool => rw [Expr.value, Expr.value]
  | ref r =>
    rw [Expr.value, Expr.value]
    exact hcell r.address (.ref rfl)
  | range first last => rw [Expr.value, Expr.value, herror]
  | call f args =>
    have hargs : ∀ ranges, Expr.argumentValues o ranges args = Expr.argumentValues o' ranges args :=
      fun ranges => Expr.argumentValues_congr hcontains herror ranges args
        fun e he a ha => hcell a (.call he ha)
    simp only [Expr.value, herror, hargs]
  | binary op left right =>
    have hleft := Expr.value_congr hcontains herror left fun a ha => hcell a (.left ha)
    have hright := Expr.value_congr hcontains herror right fun a ha => hcell a (.right ha)
    rw [Expr.value, Expr.value, herror, hleft, hright]
  | neg operand =>
    have hoperand := Expr.value_congr hcontains herror operand fun a ha => hcell a (.neg ha)
    rw [Expr.value, Expr.value, hoperand]

theorem Expr.argumentValues_congr (hcontains : o.contains = o'.contains)
    (herror : o.error = o'.error) (ranges : Bool) (es : List Expr)
    (hcell : ∀ e ∈ es, ∀ a, e.Names a → o.cell a = o'.cell a) :
    Expr.argumentValues o ranges es = Expr.argumentValues o' ranges es := by
  cases es with
  | nil => rw [Expr.argumentValues, Expr.argumentValues]
  | cons e es =>
    have hhere := Expr.value_congr hcontains herror e (hcell e List.mem_cons_self)
    have hlater := Expr.argumentValues_congr hcontains herror ranges es
      fun e he => hcell e (List.mem_cons_of_mem _ he)
    rw [Expr.argumentValues.eq_def, Expr.argumentValues.eq_def]
    dsimp only
    split
    next first last =>
      have hrect : o.rect (Rect.spanning first.address last.address) =
          o'.rect (Rect.spanning first.address last.address) :=
        Outcomes.rect_congr o o' hcontains herror
          fun a ha => hcell (.range first last) List.mem_cons_self a (.range ha)
      rw [hrect, hlater]
    next => rw [hhere, hlater]

end

end

theorem Expr.result_eval_congr (env env' : Surroundings) (hcontains : env.contains = env'.contains)
    (e : Expr) (hread : ∀ a, e.Names a → (env.read a).result = (env'.read a).result) :
    (e.eval env).result = (e.eval env').result := by
  have hid : ∀ x : Except EvalError Value, x.mapError id = x := by
    intro x
    cases x with
    | error e => rfl
    | ok v => rfl
  have hvalue : e.value (env.outcomes id) = e.value (env'.outcomes id) := by
    refine Expr.value_congr (env.outcomes id) (env'.outcomes id) hcontains rfl e fun a ha => ?_
    exact congrArg (·.mapError id) (hread a ha)
  rw [← Expr.mapError_eval, ← Expr.mapError_eval, hid, hid] at hvalue
  exact hvalue

namespace Sheet

open Relation

variable {s : Sheet} {traced traced' : Bool} {active active' : AddressSet} {a b : Address}

/-- What a cell comes to is the same while one or the other cells are being evaluated, if these
cannot be told apart at any cell that it leads to. -/
theorem result_readCell_congr (alike : AddressSet → AddressSet → Address → Prop)
    (hactive : ∀ {x y a}, alike x y a → (a ∈ x ↔ a ∈ y))
    (hstep : ∀ {x y a b}, alike x y a → s.Reads a b → alike (x.insert a) (y.insert a) b)
    (h : alike active active' a) :
    (s.readCell traced active a).result = (s.readCell traced' active' a).result := by
  induction hn : (AddressMap.outside s.cells active).length using Nat.strongRecOn
    generalizing active active' a with
  | ind n ih =>
    cases hin : s.contains a with
    | false => rw [readCell_of_not_contains hin, readCell_of_not_contains hin]
    | true =>
      by_cases ha : a ∈ active
      · rw [readCell_of_active hin ha, readCell_of_active hin ((hactive h).mp ha)]
      · rw [readCell_of_not_active hin ha, readCell_of_not_active hin (mt (hactive h).mpr ha)]
        cases hc : s.get? a with
        | none => rfl
        | some c =>
          cases c with
          | literal v => rfl
          | error f => rfl
          | formula source expr =>
            cases expr with
            | none => rfl
            | some e =>
              change (e.eval (s.surroundings traced (active.insert a))).result =
                (e.eval (s.surroundings traced' (active'.insert a))).result
              refine Expr.result_eval_congr (s.surroundings traced (active.insert a))
                (s.surroundings traced' (active'.insert a)) rfl e fun b hb => ?_
              change (s.readCell traced (active.insert a) b).result =
                (s.readCell traced' (active'.insert a) b).result
              cases hinb : s.contains b with
              | false => rw [readCell_of_not_contains hinb, readCell_of_not_contains hinb]
              | true =>
                -- One cell more is active, so fewer are left to become so.
                have hless := AddressMap.outside_insert_lt (mem_cells_of_get? hc) ha
                have hreads : s.Reads a b := ⟨_, hc, mem_dependencies.mpr ⟨e, rfl, hb, hinb⟩⟩
                exact ih _ (hn ▸ hless) (hstep h hreads) rfl

theorem result_readCell_traced (s : Sheet) (traced traced' : Bool) (active : AddressSet)
    (a : Address) : (s.readCell traced active a).result = (s.readCell traced' active a).result := by
  refine result_readCell_congr (fun x y _ => x = y) ?_ ?_ rfl
  · rintro x y b rfl
    exact Iff.rfl
  · rintro x y b c rfl _
    rfl

/-- No reference loop can be reached from the cell. -/
def LoopFreeFrom (s : Sheet) (a : Address) : Prop :=
  ∀ b, ReflTransGen s.Reads a b → ¬ TransGen s.Reads b b

/-- What refers to cells without references only leads to no loop. -/
theorem loopFreeFrom_of_reads_leaves (h : ∀ b, s.Reads a b → ∀ c, ¬ s.Reads b c) :
    s.LoopFreeFrom a := by
  have hleaf : ∀ {b c}, s.Reads a b → ReflTransGen s.Reads b c → c = b := by
    intro b c hab hbc
    rcases hbc.cases_head with rfl | ⟨x, hbx, _⟩
    · rfl
    · exact (h b hab x hbx).elim
  intro b hab hloop
  rcases hab.cases_head with rfl | ⟨x, hax, hxb⟩
  · obtain ⟨x, hax, hxa⟩ := TransGen.head'_iff.mp hloop
    obtain rfl := hleaf hax hxa
    exact h _ hax _ hax
  · obtain rfl := hleaf hax hxb
    obtain ⟨y, hby, _⟩ := TransGen.head'_iff.mp hloop
    exact h _ hax y hby

theorem LoopFreeFrom.of_reads (h : s.LoopFreeFrom a) (hab : s.Reads a b) : s.LoopFreeFrom b :=
  fun c hbc => h c (.head hab hbc)

/-- None of the cells can be reached from `a`. -/
def Unreached (s : Sheet) (a : Address) (active : AddressSet) : Prop :=
  ∀ x ∈ active, ¬ ReflTransGen s.Reads a x

theorem unreached_empty : s.Unreached a ∅ := by
  intro x hx
  simp at hx

theorem Unreached.insert (h : s.Unreached a active) (hfree : s.LoopFreeFrom a)
    (hab : s.Reads a b) : s.Unreached b (active.insert a) := by
  intro x hx hbx
  rcases Std.ExtTreeSet.mem_insert.mp hx with hax | hx
  · obtain rfl := Std.compare_eq_iff_eq.mp hax
    exact hfree a .refl (TransGen.head' hab hbx)
  · exact h x hx (.head hab hbx)

/-- A cell that leads to no loop comes to the same whatever waits for it. -/
theorem result_readCell_of_unreached (hfree : s.LoopFreeFrom a) (h : s.Unreached a active)
    (h' : s.Unreached a active') :
    (s.readCell traced active a).result = (s.readCell traced' active' a).result := by
  refine result_readCell_congr
    (fun x y b => s.LoopFreeFrom b ∧ s.Unreached b x ∧ s.Unreached b y) ?_ ?_ ⟨hfree, h, h'⟩
  · rintro x y b ⟨_, hx, hy⟩
    exact iff_of_false (fun hb => hx b hb .refl) (fun hb => hy b hb .refl)
  · rintro x y b c ⟨hb, hx, hy⟩ hbc
    exact ⟨hb.of_reads hbc, hx.insert hb hbc, hy.insert hb hbc⟩

/-- What the cells of the sheet come to, each evaluated for itself. -/
def outcomes (s : Sheet) (policy : Policy) : Outcomes Failure :=
  ⟨fun a => (s.evaluateCell policy a false).outcome, s.contains, (·.failure policy)⟩

theorem mapError_readCell_eq_value {policy : Policy} {e : Expr} (he : s.Holds a e)
    (hin : s.contains a = true) (hfree : s.LoopFreeFrom a) (hactive : s.Unreached a active) :
    (s.readCell traced active a).result.mapError (·.failure policy) =
      e.value (s.outcomes policy) := by
  obtain ⟨source, hc⟩ := he
  have hnot : a ∉ active := fun ha => hactive a ha .refl
  rw [readCell_of_not_active hin hnot, hc]
  change (e.eval (s.surroundings traced (active.insert a))).result.mapError _ = _
  rw [Expr.mapError_eval]
  refine Expr.value_congr ((s.surroundings traced (active.insert a)).outcomes (·.failure policy))
    (s.outcomes policy) rfl rfl e fun b hb => ?_
  change (s.readCell traced (active.insert a) b).result.mapError _ =
    (s.evaluateCell policy b false).outcome
  rw [outcome_evaluateCell]
  cases hinb : s.contains b with
  | false => rw [readCell_of_not_contains hinb, readCell_of_not_contains hinb]
  | true =>
    have hab : s.Reads a b := ⟨_, hc, mem_dependencies.mpr ⟨e, rfl, hb, hinb⟩⟩
    have hread : (s.readCell traced (active.insert a) b).result =
        (s.readCell false ∅ b).result :=
      result_readCell_of_unreached (hfree.of_reads hab) (hactive.insert hfree hab) unreached_empty
    rw [hread]

theorem outcome_evaluateFormula_of_decode {policy : Policy} {text : String}
    (h : Address.decode text = .ok a) :
    (s.evaluateFormula policy text traced).outcome =
      (s.evaluateCell policy a traced').outcome := by
  obtain ⟨r, hr, hra⟩ : ∃ r, Reference.ofText? text = some r ∧ r.address = a := by
    rw [Address.decode, Reference.decode] at h
    split at h
    next r hr => exact ⟨r, hr, Except.ok.inj h⟩
    next => cases h
  subst hra
  rw [outcome_evaluateCell, result_readCell_traced s traced' traced, evaluateFormula,
    Expr.read_of_ofText? hr]
  simp only [evaluateExpr, Expr.eval]
  rfl

/-- To read a cell through a reference is to evaluate it, and a formula that leads to no loop comes
to what it says of the outcomes of its cells, whatever cells wait for it meanwhile. -/
theorem reading_is_evaluating (s : Sheet) (policy : Policy) :
    (∀ text a, Address.decode text = .ok a → ∀ traced traced',
        (s.evaluateFormula policy text traced).outcome =
          (s.evaluateCell policy a traced').outcome) ∧
      ∀ a e, s.Holds a e → s.contains a = true → s.LoopFreeFrom a →
        (∀ traced, (s.evaluateCell policy a traced).outcome = e.value (s.outcomes policy)) ∧
          ∀ traced active,
            (∀ x ∈ active, TransGen s.Reads x a ∨ ¬ ReflTransGen s.Reads a x) →
            (s.readCell traced active a).result.mapError (·.failure policy) =
              e.value (s.outcomes policy) := by
  refine ⟨fun text a h traced traced' => outcome_evaluateFormula_of_decode h, ?_⟩
  intro a e he hin hfree
  constructor
  · intro traced
    rw [outcome_evaluateCell]
    exact mapError_readCell_eq_value he hin hfree unreached_empty
  · intro traced active hactive
    refine mapError_readCell_eq_value he hin hfree fun x hx hax => ?_
    rcases hactive x hx with hxa | hout
    · exact hfree x hax (hxa.trans_left hax)
    · exact hout hax

/-- A formula beside a loop, read by its name and while the loop waits. -/
theorem reading_is_evaluating_quartet :
    Address.decode "$b$1" = .ok ⟨0, 1⟩ ∧ quartet.LoopFreeFrom ⟨0, 1⟩ ∧
      (quartet.evaluateFormula Policy.standard "$b$1" true).outcome =
        (quartet.evaluateCell Policy.standard ⟨0, 1⟩ false).outcome ∧
      (quartet.evaluateCell Policy.standard ⟨0, 1⟩ true).outcome =
        (quartet.outcomes Policy.standard).cell ⟨0, 0⟩ ∧
      (quartet.readCell true (Std.ExtTreeSet.ofList [(⟨0, 2⟩ : Address)]) ⟨0, 1⟩).result.mapError
        (·.failure Policy.standard) = (quartet.outcomes Policy.standard).cell ⟨0, 0⟩ := by
  have hdecode : Address.decode "$b$1" = .ok ⟨0, 1⟩ := by
    with_unfolding_all rfl
  have hfree : quartet.LoopFreeFrom ⟨0, 1⟩ := by
    refine loopFreeFrom_of_reads_leaves fun b hb c hc => ?_
    rcases quartet_reads hb with ⟨h, _⟩ | ⟨h, _⟩ | ⟨_, rfl⟩
    · cases h
    · cases h
    · rcases quartet_reads hc with ⟨h, _⟩ | ⟨h, _⟩ | ⟨h, _⟩ <;> cases h
  have hactive : ∀ x ∈ (Std.ExtTreeSet.ofList [(⟨0, 2⟩ : Address)] : AddressSet),
      TransGen quartet.Reads x ⟨0, 1⟩ ∨ ¬ ReflTransGen quartet.Reads ⟨0, 1⟩ x := by
    intro x hx
    obtain rfl : ⟨0, 2⟩ = x := by simpa using hx
    refine Or.inr fun hreach => ?_
    obtain h | ⟨y, hy, hrest⟩ := hreach.cases_head
    · cases h
    · rcases quartet_reads hy with ⟨h, _⟩ | ⟨h, _⟩ | ⟨_, rfl⟩
      · cases h
      · cases h
      · obtain h | ⟨z, hz, _⟩ := hrest.cases_head
        · cases h
        · rcases quartet_reads hz with ⟨h, _⟩ | ⟨h, _⟩ | ⟨h, _⟩ <;> cases h
  obtain ⟨hread, hvalue⟩ := reading_is_evaluating quartet Policy.standard
  obtain ⟨hcell, hwaiting⟩ :=
    hvalue ⟨0, 1⟩ (.ref ⟨⟨0, 0⟩, ⟨false, false⟩⟩) ⟨"=A1", rfl⟩ rfl hfree
  exact ⟨hdecode, hfree, hread _ _ hdecode true false, hcell true, hwaiting true _ hactive⟩

/-- A failure, a sum over a range that ends past the last column, and a formula that stands
there. -/
def overhang : Sheet :=
  (((Sheet.empty "s" "Sheet" 2 2).set ⟨0, 0⟩ (.error ⟨.div0, "Division by zero"⟩)).set ⟨1, 0⟩
      (.formula "=SUM(A1:C1)" (some (.call "SUM"
        [.range ⟨⟨0, 0⟩, ⟨false, false⟩⟩ ⟨⟨0, 2⟩, ⟨false, false⟩⟩])))).set ⟨0, 2⟩
    (.formula "=A1" (some (.ref ⟨⟨0, 0⟩, ⟨false, false⟩⟩)))

/-- The cells that the formulas refer to hold no formulas. -/
theorem overhang_reads_leaves (hab : overhang.Reads a b) (c : Address) : ¬ overhang.Reads b c := by
  have hcells : ∀ {x d}, overhang.get? x = some d → d.expr?.isSome →
      x = ⟨0, 2⟩ ∧ d.expr? = some (.ref ⟨⟨0, 0⟩, ⟨false, false⟩⟩) ∨
        x = ⟨1, 0⟩ ∧ d.expr? = some
          (.call "SUM" [.range ⟨⟨0, 0⟩, ⟨false, false⟩⟩ ⟨⟨0, 2⟩, ⟨false, false⟩⟩]) := by
    intro x d hd hformula
    rw [overhang, get?_set, get?_set, get?_set, get?_empty] at hd
    grind [Cell.expr?]
  intro hbc
  obtain ⟨d, hd, hb⟩ := hab
  obtain ⟨e, he, hname, hin⟩ := mem_dependencies.mp hb
  obtain ⟨d', hd', hc⟩ := hbc
  obtain ⟨e', he', _⟩ := mem_dependencies.mp hc
  have hrow : b.row = 0 := by
    rcases hcells hd (by rw [he]; rfl) with ⟨_, h⟩ | ⟨_, h⟩
    · rw [he] at h
      cases Option.some.inj h
      cases hname with
      | ref hr => rw [← hr]
    · rw [he] at h
      cases Option.some.inj h
      obtain ⟨arg, harg, hname⟩ := Expr.names_call.mp hname
      obtain rfl := List.mem_singleton.mp harg
      cases hname with
      | range hr => exact Nat.le_zero.mp hr.2.1
  rcases hcells hd' (by rw [he']; rfl) with ⟨rfl, _⟩ | ⟨rfl, _⟩
  · cases hin
  · cases hrow

/-- The sum does not show the failure of its first cell, since its last one lies outside; nor does
the formula outside, though its cell does. -/
theorem overhang_not_values :
    let o := { overhang.outcomes Policy.standard with contains := fun _ => true }
    let sum := Expr.call "SUM" [.range ⟨⟨0, 0⟩, ⟨false, false⟩⟩ ⟨⟨0, 2⟩, ⟨false, false⟩⟩]
    let first := Expr.ref ⟨⟨0, 0⟩, ⟨false, false⟩⟩
    let outside := (EvalError.outOfBounds ⟨0, 2⟩).failure Policy.standard
    (overhang.Holds ⟨1, 0⟩ sum ∧ overhang.LoopFreeFrom ⟨1, 0⟩ ∧
      (overhang.evaluateCell Policy.standard ⟨1, 0⟩ false).outcome = .error outside ∧
      sum.value o = .error ⟨.div0, "Division by zero"⟩) ∧
    overhang.Holds ⟨0, 2⟩ first ∧ overhang.LoopFreeFrom ⟨0, 2⟩ ∧
      (overhang.evaluateCell Policy.standard ⟨0, 2⟩ false).outcome = .error outside ∧
      first.value o = .error ⟨.div0, "Division by zero"⟩ ∧
      outside ≠ ⟨.div0, "Division by zero"⟩ := by
  intro o sum first outside
  have hsum : overhang.LoopFreeFrom ⟨1, 0⟩ :=
    loopFreeFrom_of_reads_leaves fun _ => overhang_reads_leaves
  have hfirst : overhang.LoopFreeFrom ⟨0, 2⟩ :=
    loopFreeFrom_of_reads_leaves fun _ => overhang_reads_leaves
  have hne : outside ≠ ⟨.div0, "Division by zero"⟩ := by
    intro h
    cases congrArg Failure.code h
  exact ⟨⟨⟨_, rfl⟩, hsum, rfl, rfl⟩, ⟨_, rfl⟩, hfirst, rfl, rfl, hne⟩

end Sheet

end Recalc
