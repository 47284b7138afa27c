import Recalc.Proofs.Evaluation.Locality
import Recalc.Proofs.Evaluation.Result

namespace Recalc

theorem mapM_flatMap {m : Type → Type} [Monad m] [LawfulMonad m] {α β γ : Type} {l : List α}
    {g : α → List β} {h : β → m γ} :
    (l.flatMap g).mapM h = List.flatten <$> l.mapM fun a => (g a).mapM h := by
  induction l with
  | nil => simp
  | cons a l ih =>
    rw [List.flatMap_cons, List.mapM_append, ih, List.mapM_cons]
    simp only [map_eq_pure_bind, bind_assoc, pure_bind, List.flatten_cons]

namespace Run

variable {α β γ : Type}

theorem ok_bind (a : α) (steps : List Step) (f : α → Run β) :
    (⟨.ok a, steps⟩ : Run α) >>= f = ⟨(f a).result, steps ++ (f a).steps⟩ := rfl

theorem bind_assoc_run (r : Run α) (f : α → Run β) (g : β → Run γ) :
    r >>= f >>= g = r >>= fun a => f a >>= g := by
  obtain ⟨result, steps⟩ := r
  cases result with
  | error e => rfl
  | ok a =>
    rw [ok_bind, ok_bind]
    obtain ⟨result, steps'⟩ := f a
    cases result with
    | error e => rfl
    | ok b => simp only [ok_bind, List.append_assoc]

instance : LawfulMonad Run := by
  refine LawfulMonad.mk' Run ?_ (fun _ _ => rfl) bind_assoc_run
  rintro α ⟨result, steps⟩
  cases result with
  | error e => rfl
  | ok a => exact congrArg (Run.mk _) (List.append_nil steps)

theorem forEach_eq_mapM (f : Nat → Run β) (start count : Nat) :
    forEach f start count = (List.range' start count).mapM f := by
  induction count generalizing start with
  | zero => rfl
  | succ count ih => rw [forEach, List.range'_succ, List.mapM_cons, ih]

end Run

/-- A rectangle inside the sheet is read cell by cell, row by row. -/
theorem Surroundings.readRect_eq_mapM {env : Surroundings} {r : Rect}
    (hin : env.contains r.bottomRight = true) : env.readRect r = r.cells.mapM env.read := by
  rw [readRect, if_pos hin, Rect.cells, mapM_flatMap, map_eq_pure_bind]
  simp only [Run.forEach_eq_mapM, List.mapM_map]
  rfl

namespace Rect

/-- The two cells are corners of the rectangle that lie opposite to each other. -/
def OppositeCorners (r : Rect) (a b : Address) : Prop :=
  a = ⟨r.top, r.left⟩ ∧ b = ⟨r.bottom, r.right⟩ ∨ a = ⟨r.bottom, r.right⟩ ∧ b = ⟨r.top, r.left⟩ ∨
    a = ⟨r.top, r.right⟩ ∧ b = ⟨r.bottom, r.left⟩ ∨ a = ⟨r.bottom, r.left⟩ ∧ b = ⟨r.top, r.right⟩

theorem OppositeCorners.spanning_eq {r : Rect} {a b : Address} (h : r.OppositeCorners a b) :
    spanning a b = r := by
  obtain ⟨top, left, bottom, right, hrows, hcols⟩ := r
  rcases h with ⟨rfl, rfl⟩ | ⟨rfl, rfl⟩ | ⟨rfl, rfl⟩ | ⟨rfl, rfl⟩ <;>
    simp only [spanning, Rect.mk.injEq] <;> omega

end Rect

namespace Expr

variable {env : Surroundings} {ranges : Bool}

/-- What one argument contributes: a range, where it is accepted, the values of its cells. -/
def evalArgument (env : Surroundings) (ranges : Bool) (e : Expr) : Run (List Value) :=
  match e, ranges with
  | range first last, true => env.readRect (Rect.spanning first.address last.address)
  | e, _ => do
    let v ← eval env e
    pure [v]

theorem evalArguments_cons (e : Expr) (es : List Expr) :
    evalArguments env ranges (e :: es) = do
      let here ← evalArgument env ranges e
      let later ← evalArguments env ranges es
      return here ++ later := by
  rw [evalArguments.eq_def, evalArgument.eq_def]
  dsimp only
  split
  · rfl
  · simp only [bind_assoc]

theorem evalArguments_append (es es' : List Expr) :
    evalArguments env ranges (es ++ es') = do
      let before ← evalArguments env ranges es
      let after ← evalArguments env ranges es'
      return before ++ after := by
  induction es with
  | nil =>
    rw [evalArguments]
    simp only [List.nil_append, pure_bind, bind_pure]
  | cons e es ih =>
    rw [List.cons_append, evalArguments_cons, ih, evalArguments_cons]
    simp only [bind_assoc, pure_bind, List.append_assoc]

/-- References as arguments are read one after another. -/
theorem evalArguments_refs (refs : List Reference) :
    evalArguments env ranges (refs.map .ref) = (refs.map (·.address)).mapM env.read := by
  induction refs with
  | nil =>
    rw [List.map_nil, evalArguments]
    rfl
  | cons r refs ih =>
    rw [List.map_cons, evalArguments_cons, ih, List.map_cons, List.mapM_cons]
    simp only [evalArgument, eval, bind_assoc, pure_bind, List.singleton_append]

theorem evalArguments_range {first last : Reference} {refs : List Reference}
    (hin : env.contains (Rect.spanning first.address last.address).bottomRight = true)
    (hrefs : refs.map (·.address) = (Rect.spanning first.address last.address).cells) :
    evalArguments env true [range first last] = evalArguments env true (refs.map .ref) := by
  rw [evalArguments_refs, hrefs, ← Surroundings.readRect_eq_mapM hin, evalArguments_cons,
    evalArguments]
  simp only [evalArgument, pure_bind, List.append_nil, bind_pure]

theorem checkArity_of_acceptsRanges {builtin : Builtin} (h : builtin.acceptsRanges = true)
    (f : String) (given : Nat) : builtin.checkArity f given = .ok () := by
  cases builtin with
  | choice => cases h
  | _ => rfl

theorem eval_call_of_acceptsRanges {f : String} {builtin : Builtin}
    (hf : Builtin.lookup? f = some builtin) (h : builtin.acceptsRanges = true) (args : List Expr) :
    (call f args).eval env =
      Run.noted env.traced (call f args) (builtin.apply <$> evalArguments env true args) := by
  rw [eval, hf]
  simp only [checkArity_of_acceptsRanges h, h, map_eq_pure_bind]
  rfl

/-- Calls come to the same if their arguments do, however these are written. -/
theorem result_call_congr {f : String} {builtin : Builtin}
    (hf : Builtin.lookup? f = some builtin) (h : builtin.acceptsRanges = true)
    {args args' : List Expr} (hargs : evalArguments env true args = evalArguments env true args') :
    ((call f args).eval env).result = ((call f args').eval env).result := by
  rw [eval_call_of_acceptsRanges hf h, eval_call_of_acceptsRanges hf h, Run.result_noted,
    Run.result_noted, hargs]

end Expr

namespace Sheet

/-- A range as an argument is the list of its cells: a call comes to the same with a reference to
each of them in place of the range, row by row, and with the range written from any of its
corners. -/
theorem range_argument_is_its_cells (s : Sheet) (traced : Bool) (active : AddressSet) {f : String}
    {builtin : Builtin} (hf : Builtin.lookup? f = some builtin)
    (hranges : builtin.acceptsRanges = true) (before after : List Expr) (first last : Reference)
    (hin : s.contains (Rect.spanning first.address last.address).bottomRight = true) :
    (∀ refs : List Reference,
        refs.map (·.address) = (Rect.spanning first.address last.address).cells →
        ((Expr.call f (before ++ .range first last :: after)).eval
            (s.surroundings traced active)).result =
          ((Expr.call f (before ++ (refs.map .ref ++ after))).eval
            (s.surroundings traced active)).result) ∧
      ∀ first' last' : Reference,
        (Rect.spanning first.address last.address).OppositeCorners first'.address last'.address →
        ((Expr.call f (before ++ .range first last :: after)).eval
            (s.surroundings traced active)).result =
          ((Expr.call f (before ++ .range first' last' :: after)).eval
            (s.surroundings traced active)).result := by
  constructor
  · intro refs hrefs
    refine Expr.result_call_congr hf hranges ?_
    have hrange : Expr.evalArguments (s.surroundings traced active) true [.range first last] =
        Expr.evalArguments (s.surroundings traced active) true (refs.map .ref) :=
      Expr.evalArguments_range hin hrefs
    rw [← List.singleton_append, Expr.evalArguments_append, Expr.evalArguments_append,
      Expr.evalArguments_append, Expr.evalArguments_append, hrange]
  · intro first' last' hcorners
    refine Expr.result_call_congr hf hranges ?_
    have hrect := hcorners.spanning_eq
    rw [Expr.evalArguments_append, Expr.evalArguments_append, Expr.evalArguments_cons,
      Expr.evalArguments_cons]
    simp only [Expr.evalArgument, hrect]

/-- The range `A2:B1` between a text and a reference: its cells are joined row by row. -/
theorem range_argument_is_its_cells_quartet :
    let sheet := (quartet.extendRows 1).set ⟨1, 0⟩ (.literal (.text "x"))
    let joined (args : List Expr) : Except EvalError Value :=
      ((Expr.call "concat" ([.text "<"] ++ (args ++ [.ref ⟨⟨0, 1⟩, ⟨false, false⟩⟩]))).eval
        (sheet.surroundings false ∅)).result
    let range (first last : Address) : Expr := .range ⟨first, ⟨true, false⟩⟩ ⟨last, ⟨false, false⟩⟩
    let refs : List Reference :=
      [⟨⟨0, 0⟩, ⟨false, true⟩⟩, ⟨⟨0, 1⟩, ⟨false, false⟩⟩, ⟨⟨1, 0⟩, ⟨true, true⟩⟩,
        ⟨⟨1, 1⟩, ⟨false, false⟩⟩]
    Builtin.lookup? "concat" = some .concat ∧ sheet.contains ⟨1, 1⟩ = true ∧
      joined [range ⟨1, 0⟩ ⟨0, 1⟩] = .ok (.text "<truetruextrue") ∧
      joined (refs.map .ref) = .ok (.text "<truetruextrue") ∧
      joined [range ⟨1, 1⟩ ⟨0, 0⟩] = .ok (.text "<truetruextrue") := by
  intro sheet joined range refs
  have hlookup : Builtin.lookup? "concat" = some .concat := by decide +kernel
  obtain ⟨hcells, hcorners⟩ := range_argument_is_its_cells sheet false ∅ hlookup rfl [.text "<"]
    [.ref ⟨⟨0, 1⟩, ⟨false, false⟩⟩] ⟨⟨1, 0⟩, ⟨true, false⟩⟩ ⟨⟨0, 1⟩, ⟨false, false⟩⟩ rfl
  have hfirst : ∀ active : AddressSet, ⟨0, 0⟩ ∉ active →
      sheet.readCell false active ⟨0, 0⟩ = pure (.bool true) := fun _ ha => readCell_untraced rfl ha
  have hsecond : sheet.readCell false ∅ ⟨0, 1⟩ = pure (.bool true) :=
    (readCell_untraced rfl (by simp)).trans (hfirst _ (by simp))
  have hthird : sheet.readCell false ∅ ⟨1, 0⟩ = pure (.text "x") :=
    readCell_untraced rfl (by simp)
  have hfourth : sheet.readCell false ∅ ⟨1, 1⟩ = pure .null := readCell_untraced rfl (by simp)
  have hvalues : Expr.evalArguments (sheet.surroundings false ∅) true
      ([.text "<"] ++ (refs.map .ref ++ [.ref ⟨⟨0, 1⟩, ⟨false, false⟩⟩])) =
        pure [.text "<", .bool true, .bool true, .text "x", .null, .bool true] := by
    rw [Expr.evalArguments_append, Expr.evalArguments_append, Expr.evalArguments_refs]
    simp only [refs, List.map, List.mapM_cons, List.mapM_nil, Expr.evalArguments, Expr.eval,
      surroundings, hfirst ∅ (by simp), hsecond, hthird, hfourth]
    rfl
  have hjoined : joined (refs.map .ref) = .ok (.text "<truetruextrue") := by
    refine (congrArg Run.result (Expr.eval_call_of_acceptsRanges hlookup rfl _)).trans ?_
    rw [hvalues]
    rfl
  have hrange : joined [range ⟨1, 0⟩ ⟨0, 1⟩] = .ok (.text "<truetruextrue") :=
    (hcells refs rfl).trans hjoined
  have hother : joined [range ⟨1, 0⟩ ⟨0, 1⟩] = joined [range ⟨1, 1⟩ ⟨0, 0⟩] :=
    hcorners ⟨⟨1, 1⟩, ⟨true, false⟩⟩ ⟨⟨0, 0⟩, ⟨false, false⟩⟩ (Or.inr (Or.inl ⟨rfl, rfl⟩))
  exact ⟨hlookup, rfl, hrange, hjoined, hother.symm.trans hrange⟩

end Sheet

end Recalc
