import Recalc.Proofs.Formula.Steps

namespace Recalc

/-- The operators on each level of the grammar. Those on a higher level bind tighter. -/
def Operator.ofLevel : Nat → List Operator
  | 1 => [.eq, .ne]
  | 2 => [.lt, .le, .gt, .ge]
  | 3 => [.add, .sub]
  | 4 => [.mul, .div]
  | 5 => [.pow]
  | _ => []

/-- The grammar of formulas, each derivation with its tree. A formula is of level 1. On the levels 1
to 5 stand the operations of the operators there: their left operand is of the same level and the
right one of the next. On level 6 stand negations, and on level 7 what is no operation. -/
inductive Derives : Nat → List Lexeme → Expr → Prop
  | weaken {n : Nat} {ls : List Lexeme} {e : Expr} (h : Derives (n + 1) ls e) : Derives n ls e
  | binary {n : Nat} {op : Operator} {ls rs : List Lexeme} {left right : Expr}
      (hop : op ∈ Operator.ofLevel n) (hleft : Derives n ls left)
      (hright : Derives (n + 1) rs right) :
      Derives n (ls ++ .operator op :: rs) (.binary op left right)
  | neg {ls : List Lexeme} {e : Expr} (h : Derives 6 ls e) :
      Derives 6 (.operator .sub :: ls) (.neg e)
  | number (x : Float) : Derives 7 [.number x] (.number x)
  | text (s : String) : Derives 7 [.text s] (.text s)
  | bool (b : Bool) : Derives 7 [.bool b] (.bool b)
  | ref {s : String} {r : Reference} (hr : Reference.decode s = .ok r) :
      Derives 7 [.cell s] (.ref r)
  | range {s s' : String} {first last : Reference} (hfirst : Reference.decode s = .ok first)
      (hlast : Reference.decode s' = .ok last) :
      Derives 7 [.cell s, .colon, .cell s'] (.range first last)
  | call (f : String) {args : List (List Lexeme × Expr)}
      (hargs : ∀ arg ∈ args, Derives 1 arg.1 arg.2) :
      Derives 7 (.name f :: .leftParen :: ([.comma].intercalate (args.map (·.1)) ++ [.rightParen]))
        (.call f (args.map (·.2)))
  | group {ls : List Lexeme} {e : Expr} (h : Derives 1 ls e) :
      Derives 7 (.leftParen :: (ls ++ [.rightParen])) e

/-- The reader gives each operator the strength of its level. -/
theorem Operator.mem_ofLevel_iff {op : Operator} {n : Nat} :
    op ∈ ofLevel n ↔ op.strength = n := by
  constructor
  · intro h
    unfold ofLevel at h
    split at h <;> simp only [List.mem_cons, List.not_mem_nil, or_false] at h
    · rcases h with rfl | rfl <;> rfl
    · rcases h with rfl | rfl | rfl | rfl <;> rfl
    · rcases h with rfl | rfl <;> rfl
    · rcases h with rfl | rfl <;> rfl
    · subst h
      rfl
  · rintro rfl
    cases op <;> decide

theorem intercalate_concat {α : Type} (sep : List α) (xs : List (List α)) (x : List α) :
    sep.intercalate (xs ++ [x]) = xs.flatMap (· ++ sep) ++ x := by
  induction xs with
  | nil => exact List.intercalate_singleton
  | cons y ys ih =>
    cases ys with
    | nil => simp [List.intercalate_cons_cons]
    | cons z zs =>
      rw [List.flatMap_cons, List.append_assoc, ← ih]
      exact List.intercalate_cons_cons

theorem mem_intercalate_comma {l : Lexeme} {xs : List (List Lexeme)}
    (h : l ∈ [Lexeme.comma].intercalate xs) : l = .comma ∨ ∃ x ∈ xs, l ∈ x := by
  rcases List.eq_nil_or_concat xs with rfl | ⟨front, last, rfl⟩
  · cases h
  · rw [List.concat_eq_append] at h ⊢
    rw [intercalate_concat, List.mem_append, List.mem_flatMap] at h
    rcases h with ⟨x, hx, h⟩ | h
    · rcases List.mem_append.mp h with h | h
      · exact Or.inr ⟨x, List.mem_append_left _ hx, h⟩
      · exact Or.inl (List.mem_singleton.mp h)
    · exact Or.inr ⟨last, List.mem_append_right _ List.mem_cons_self, h⟩

theorem forall_mem_concat {α : Type} {p : α → Prop} {xs : List α} {x : α} (hxs : ∀ y ∈ xs, p y)
    (hx : p x) : ∀ y ∈ xs ++ [x], p y := by
  intro y hy
  rcases List.mem_append.mp hy with hy | hy
  · exact hxs y hy
  · rwa [List.mem_singleton.mp hy]

namespace Derives

variable {m n : Nat} {ls : List Lexeme} {e : Expr}

theorem mono (h : Derives n ls e) (hmn : m ≤ n) : Derives m ls e := by
  induction hmn with
  | refl => exact h
  | step _ ih => exact ih h.weaken

end Derives

theorem Operator.strength_le (op : Operator) : op.strength ≤ 5 := by
  cases op <;> decide

namespace Frame

/-- The level of the operand that may come next inside of these frames. -/
def level : List Frame → Nat
  | negation :: _ => 6
  | leftOf op _ :: _ => op.strength + 1
  | _ => 1

theorem level_pos (frames : List Frame) : 1 ≤ level frames := by
  unfold level
  split <;> omega

theorem negate_of_level {frames : List Frame} (h : level frames < 6) (e : Expr) :
    negate e frames = (e, frames) := by
  cases frames with
  | nil => rfl
  | cons frame frames =>
    cases frame with
    | negation => simp [level] at h
    | _ => rfl

theorem complete_of_level {frames : List Frame} {strength : Nat} (h : level frames ≤ strength)
    (hstrength : strength < 6) (e : Expr) : complete strength e frames = (e, frames) := by
  rw [complete, negate_of_level (by omega)]
  cases frames with
  | nil => rfl
  | cons frame frames =>
    cases frame with
    | leftOf op left =>
      have hlt : ¬ strength ≤ op.strength := Nat.not_le.mpr h
      rw [close, if_neg hlt]
    | _ => rfl

/-- An operation of its strength or less is completed by its right operand. -/
theorem complete_leftOf {frames : List Frame} {op : Operator} {strength : Nat}
    (h : level frames ≤ op.strength) (hstrength : strength ≤ op.strength) (left right : Expr) :
    complete strength right (.leftOf op left :: frames) =
      complete strength (.binary op left right) frames := by
  have hop := op.strength_le
  have hhead : negate right (.leftOf op left :: frames) = (right, .leftOf op left :: frames) := rfl
  have htail : negate (.binary op left right) frames = (.binary op left right, frames) :=
    negate_of_level (by omega) _
  rw [complete, complete, hhead, htail, close, if_pos hstrength]

end Frame

namespace Reader

/-- Some lexemes are read as the operand `e`, and whatever follows finds what it would find behind
`e` itself. -/
def ReadsAs (n : Nat) (frames : List Frame) (ls : List Lexeme) (e : Expr) : Prop :=
  ∃ s frames' e', Steps ⟨frames, .operand⟩ ls s ∧ s.Behind frames' e' ∧
    ∀ strength ≤ n, Frame.complete strength e' frames' = Frame.complete strength e frames

theorem readsAs_of_step {n : Nat} {frames : List Frame} {l : Lexeme} {e : Expr} {s : State}
    (h : Begins frames l s) (hs : s.Behind frames e) : ReadsAs n frames [l] e :=
  ⟨s, frames, e, .single (.operand h), hs, fun _ _ => rfl⟩

/-- The first argument may be read as any other operand. -/
theorem Steps.firstArgument {frames frames' : List Frame} {e : Expr} {ls : List Lexeme} {s : State}
    (h : Steps ⟨frames, .operand⟩ ls s) (hs : s.Behind frames' e) :
    Steps ⟨frames, .firstArgument⟩ ls s := by
  cases h with
  | nil => cases hs
  | cons hstep hrest =>
    cases hstep with
    | operand hbegins => exact .cons (.firstArgument hbegins) hrest
    | behind hs _ => cases hs

theorem steps_arguments {f : String} {frames : List Frame} {args : List (List Lexeme × Expr)}
    (hargs : ∀ arg ∈ args, ∀ frames, Frame.level frames ≤ 1 → ReadsAs 1 frames arg.1 arg.2)
    (hne : args ≠ []) (done : List Expr) :
    Steps ⟨.call f done :: frames, .operand⟩ ([.comma].intercalate (args.map (·.1)) ++ [.rightParen])
      ⟨frames, .operator (.call f (done ++ args.map (·.2)))⟩ := by
  induction args generalizing done with
  | nil => exact absurd rfl hne
  | cons arg rest ih =>
    obtain ⟨s, frames', e', hsteps, hs, hcomplete⟩ :=
      hargs arg List.mem_cons_self (.call f done :: frames) (Nat.le_refl 1)
    have hcall : Frame.complete 0 e' frames' = (arg.2, .call f done :: frames) :=
      hcomplete 0 (Nat.zero_le 1)
    cases rest with
    | nil =>
      rw [List.map_singleton, List.intercalate_singleton, List.map_singleton]
      exact hsteps.append (.single (.behind hs (.lastArgument hcall)))
    | cons next rest =>
      have hrest := ih (fun arg harg => hargs arg (List.mem_cons_of_mem _ harg))
        (List.cons_ne_nil next rest) (done ++ [arg.2])
      rw [List.append_assoc] at hrest
      rw [List.map_cons, List.map_cons, List.intercalate_cons_cons, List.append_assoc,
        List.append_assoc]
      exact hsteps.append (.cons (.behind hs (.argument hcall)) hrest)

/-- What the grammar derives is read with the tree of the derivation. -/
theorem readsAs_of_derives {n : Nat} {ls : List Lexeme} {e : Expr} (h : Derives n ls e)
    {frames : List Frame} (hlevel : Frame.level frames ≤ n) : ReadsAs n frames ls e := by
  induction h generalizing frames with
  | @weaken n ls e _ ih =>
    obtain ⟨s, frames', e', hsteps, hs, hcomplete⟩ := ih (Nat.le_succ_of_le hlevel)
    exact ⟨s, frames', e', hsteps, hs,
      fun strength hstrength => hcomplete strength (Nat.le_succ_of_le hstrength)⟩
  | @binary n op ls rs left right hop _ _ ihleft ihright =>
    obtain rfl := Operator.mem_ofLevel_iff.mp hop
    have hle := op.strength_le
    obtain ⟨s, frames', e', hsteps, hs, hcomplete⟩ := ihleft hlevel
    have hleft : Frame.complete op.strength e' frames' = (left, frames) := by
      rw [hcomplete op.strength (Nat.le_refl _)]
      exact Frame.complete_of_level hlevel (by omega) left
    obtain ⟨s', frames'', e'', hsteps', hs', hcomplete'⟩ :=
      @ihright (.leftOf op left :: frames) (Nat.le_refl _)
    refine ⟨s', frames'', e'', hsteps.append (.cons (.behind hs (.operator hleft)) hsteps'), hs',
      fun strength hstrength => ?_⟩
    rw [hcomplete' strength (by omega)]
    exact Frame.complete_leftOf hlevel hstrength left right
  | neg _ ih =>
    obtain ⟨s, frames', e', hsteps, hs, hcomplete⟩ := @ih (.negation :: frames) (Nat.le_refl 6)
    exact ⟨s, frames', e', .cons (.operand .negation) hsteps, hs, hcomplete⟩
  | number x => exact readsAs_of_step (.number x) .whole
  | text s => exact readsAs_of_step (.text s) .whole
  | bool b => exact readsAs_of_step (.bool b) .whole
  | ref hr => exact readsAs_of_step (.reference hr) .reference
  | range hfirst hlast =>
    exact ⟨_, frames, _, .cons (.operand (.reference hfirst))
      (.cons .colon (.single (.rangeEnd hlast))), .whole, fun _ _ => rfl⟩
  | @call f args _ ih =>
    refine ⟨⟨frames, .operator (.call f (args.map (·.2)))⟩, frames, _,
      .cons (.operand (.callee f)) (.cons .arguments ?_), .whole, fun _ _ => rfl⟩
    cases args with
    | nil => exact .single .noArgument
    | cons arg rest =>
      exact (steps_arguments (fun arg harg _ => ih arg harg) (List.cons_ne_nil arg rest)
        []).firstArgument .whole
  | @group ls e _ ih =>
    obtain ⟨s, frames', e', hsteps, hs, hcomplete⟩ := @ih (.group :: frames) (Nat.le_refl 1)
    have hgroup : Frame.complete 0 e' frames' = (e, .group :: frames) :=
      hcomplete 0 (Nat.zero_le 1)
    exact ⟨_, frames, e, .cons (.operand .group)
      (hsteps.append (.single (.behind hs (.group hgroup)))), .whole, fun _ _ => rfl⟩

/-- What has been read before the frames were opened, each by the rule that it belongs to. -/
inductive Opened : List Frame → List Lexeme → Prop
  | nil : Opened [] []
  | negation {frames : List Frame} {ls : List Lexeme} (h : Opened frames ls) :
      Opened (.negation :: frames) (ls ++ [.operator .sub])
  | leftOf {frames : List Frame} {ls es : List Lexeme} {op : Operator} {left : Expr}
      (h : Opened frames ls) (hlevel : Frame.level frames ≤ op.strength)
      (hleft : Derives op.strength es left) :
      Opened (.leftOf op left :: frames) (ls ++ (es ++ [.operator op]))
  | group {frames : List Frame} {ls : List Lexeme} (h : Opened frames ls) :
      Opened (.group :: frames) (ls ++ [.leftParen])
  | call {frames : List Frame} {ls : List Lexeme} (f : String) (args : List (List Lexeme × Expr))
      (h : Opened frames ls) (hargs : ∀ arg ∈ args, Derives 1 arg.1 arg.2) :
      Opened (.call f (args.map (·.2)) :: frames)
        (ls ++ .name f :: .leftParen :: (args.map (·.1)).flatMap (· ++ [.comma]))

/-- What has been read before a state was reached. -/
inductive Consumed : State → List Lexeme → Prop
  | operand {frames : List Frame} {ls : List Lexeme} (h : Opened frames ls) :
      Consumed ⟨frames, .operand⟩ ls
  | callee {frames : List Frame} {ls : List Lexeme} (f : String) (h : Opened frames ls) :
      Consumed ⟨frames, .callee f⟩ (ls ++ [.name f])
  | firstArgument {frames : List Frame} {ls : List Lexeme} (f : String) (h : Opened frames ls) :
      Consumed ⟨.call f [] :: frames, .firstArgument⟩ (ls ++ [.name f, .leftParen])
  | reference {frames : List Frame} {ls : List Lexeme} {s : String} {r : Reference}
      (h : Opened frames ls) (hr : Reference.decode s = .ok r) :
      Consumed ⟨frames, .reference r⟩ (ls ++ [.cell s])
  | rangeEnd {frames : List Frame} {ls : List Lexeme} {s : String} {r : Reference}
      (h : Opened frames ls) (hr : Reference.decode s = .ok r) :
      Consumed ⟨frames, .rangeEnd r⟩ (ls ++ [.cell s, .colon])
  | operator {frames : List Frame} {ls es : List Lexeme} {e : Expr} (h : Opened frames ls)
      (he : Derives 7 es e) : Consumed ⟨frames, .operator e⟩ (ls ++ es)

/-- Lexemes that end with an operand of level `n` inside of the frames. -/
def EndsWith (n : Nat) (e : Expr) (frames : List Frame) (ls : List Lexeme) : Prop :=
  ∃ before es, ls = before ++ es ∧ Opened frames before ∧ Derives n es e

variable {frames : List Frame} {ls : List Lexeme} {e : Expr}

theorem EndsWith.negate (h : EndsWith 6 e frames ls) :
    EndsWith 6 (Frame.negate e frames).1 (Frame.negate e frames).2 ls ∧
      ∀ rest, (Frame.negate e frames).2 ≠ .negation :: rest := by
  induction frames generalizing e with
  | nil => exact ⟨h, fun rest h => by cases h⟩
  | cons frame frames ih =>
    cases frame with
    | negation =>
      obtain ⟨before, es, rfl, hopened, he⟩ := h
      cases hopened with
      | @negation _ before hopened =>
        refine ih ⟨before, .operator .sub :: es, ?_, hopened, he.neg⟩
        rw [List.append_assoc]
        rfl
    | leftOf | group | call => exact ⟨h, fun rest h => by cases h⟩

theorem EndsWith.close {n strength : Nat} (h : EndsWith n e frames ls)
    (hfirst : ∀ rest, frames ≠ .negation :: rest) (hlevel : Frame.level frames ≤ n)
    (hstrength : strength ≤ n) :
    EndsWith (max 1 strength) (Frame.close strength e frames).1 (Frame.close strength e frames).2 ls ∧
      Frame.level (Frame.close strength e frames).2 ≤ max 1 strength := by
  have hpos := Frame.level_pos frames
  induction frames generalizing e n with
  | nil =>
    obtain ⟨before, es, rfl, hopened, he⟩ := h
    exact ⟨⟨before, es, rfl, hopened, he.mono (by omega)⟩, Nat.le_max_left 1 strength⟩
  | cons frame frames ih =>
    cases frame with
    | negation => exact absurd rfl (hfirst frames)
    | leftOf op left =>
      obtain ⟨before, es, rfl, hopened, he⟩ := h
      rw [Frame.close]
      split
      next hle =>
        -- The operation is complete, and it is an operand of its own level.
        cases hopened with
        | @leftOf _ before ls _ _ hopened hlevel' hleft =>
          have hwhole : EndsWith op.strength (.binary op left e) frames
              (before ++ (ls ++ [.operator op]) ++ es) := by
            have hop : op ∈ Operator.ofLevel op.strength := Operator.mem_ofLevel_iff.mpr rfl
            exact ⟨before, ls ++ .operator op :: es, by simp, hopened,
              .binary hop hleft (he.mono hlevel)⟩
          have hop := op.strength_le
          refine ih hwhole ?_ hlevel' hle (Frame.level_pos frames)
          rintro rest rfl
          simp only [Frame.level] at hlevel'
          omega
      next hlt =>
        simp only [Frame.level] at hlevel ⊢
        exact ⟨⟨before, es, rfl, hopened, he.mono (by omega)⟩, by omega⟩
    | group | call =>
      obtain ⟨before, es, rfl, hopened, he⟩ := h
      exact ⟨⟨before, es, rfl, hopened, he.mono (by omega)⟩, Nat.le_max_left 1 strength⟩

theorem EndsWith.complete {strength : Nat} (h : EndsWith 6 e frames ls) (hstrength : strength < 6)
    {result : Expr} {rest : List Frame}
    (hresult : Frame.complete strength e frames = (result, rest)) :
    EndsWith (max 1 strength) result rest ls ∧ Frame.level rest ≤ max 1 strength := by
  obtain ⟨hnegate, hfirst⟩ := h.negate
  have hlevel : Frame.level (Frame.negate e frames).2 ≤ 6 := by
    unfold Frame.level
    split
    · exact Nat.le_refl 6
    next op _ _ _ =>
      have hop := op.strength_le
      omega
    · omega
  have hclose := hnegate.close hfirst hlevel (Nat.le_of_lt hstrength)
  rw [Frame.complete] at hresult
  rwa [hresult] at hclose

theorem Consumed.endsWith {s : State} (h : Consumed s ls) (hs : s.Behind frames e) :
    EndsWith 6 e frames ls := by
  cases hs with
  | whole =>
    cases h with
    | operator h he => exact ⟨_, _, rfl, h, he.weaken⟩
  | reference =>
    cases h with
    | reference h hr => exact ⟨_, _, rfl, h, (Derives.ref hr).weaken⟩

theorem Opened.begin {l : Lexeme} {s : State} (h : Opened frames ls) (hl : Begins frames l s) :
    Consumed s (ls ++ [l]) := by
  cases hl with
  | negation => exact .operand h.negation
  | group => exact .operand h.group
  | number x => exact .operator h (.number x)
  | text s => exact .operator h (.text s)
  | bool b => exact .operator h (.bool b)
  | reference hr => exact .reference h hr
  | callee f => exact .callee f h

theorem EndsWith.continue {l : Lexeme} {s : State} (h : EndsWith 6 e frames ls)
    (hl : Continues frames e l s) : Consumed s (ls ++ [l]) := by
  cases hl with
  | @operator op left rest hc =>
    have hop := op.strength_le
    have hpos := op.strength_pos
    obtain ⟨⟨before, es, rfl, hopened, hleft⟩, hlevel⟩ := h.complete (by omega) hc
    rw [Nat.max_eq_right hpos] at hleft hlevel
    rw [List.append_assoc]
    exact .operand (hopened.leftOf hlevel hleft)
  | group hc =>
    obtain ⟨⟨before, es, rfl, hopened, hinner⟩, _⟩ := h.complete (by omega) hc
    cases hopened with
    | @group _ before hopened =>
      have hls : before ++ [.leftParen] ++ es ++ [.rightParen] =
          before ++ .leftParen :: (es ++ [.rightParen]) := by
        simp only [List.append_assoc, List.cons_append, List.nil_append]
      rw [hls]
      exact .operator hopened (.group hinner)
  | @lastArgument f _ arg rest hc =>
    obtain ⟨⟨before, es, rfl, hopened, harg⟩, _⟩ := h.complete (by omega) hc
    cases hopened with
    | @call _ before _ args hopened hargs =>
      have hcall : Derives 7 _ (.call f ((args ++ [(es, arg)]).map (·.2))) :=
        .call f (forall_mem_concat hargs harg)
      rw [List.map_append, List.map_append, List.map_singleton, List.map_singleton,
        intercalate_concat] at hcall
      have hls : before ++ .name f :: .leftParen :: (args.map (·.1)).flatMap (· ++ [.comma]) ++ es ++
          [.rightParen] = before ++ .name f :: .leftParen ::
            ((args.map (·.1)).flatMap (· ++ [.comma]) ++ es ++ [.rightParen]) := by
        simp only [List.append_assoc, List.cons_append]
      rw [hls]
      exact .operator hopened hcall
  | @argument f _ arg rest hc =>
    obtain ⟨⟨before, es, rfl, hopened, harg⟩, _⟩ := h.complete (by omega) hc
    cases hopened with
    | @call _ before _ args hopened hargs =>
      have hcall : Opened (.call f ((args ++ [(es, arg)]).map (·.2)) :: rest) _ :=
        hopened.call f (args ++ [(es, arg)]) (forall_mem_concat hargs harg)
      rw [List.map_append, List.map_append, List.map_singleton, List.map_singleton,
        List.flatMap_append, List.flatMap_singleton] at hcall
      have hls : before ++ .name f :: .leftParen :: (args.map (·.1)).flatMap (· ++ [.comma]) ++ es ++
          [.comma] = before ++ .name f :: .leftParen ::
            ((args.map (·.1)).flatMap (· ++ [.comma]) ++ (es ++ [.comma])) := by
        simp only [List.append_assoc, List.cons_append]
      rw [hls]
      exact .operand hcall

theorem Consumed.step {l : Lexeme} {s s' : State} (h : Consumed s ls) (hstep : Step s l s') :
    Consumed s' (ls ++ [l]) := by
  have hnone : ∀ arg ∈ ([] : List (List Lexeme × Expr)), Derives 1 arg.1 arg.2 :=
    fun arg harg => by cases harg
  cases hstep with
  | operand hl =>
    cases h with
    | operand h => exact h.begin hl
  | firstArgument hl =>
    cases h with
    | firstArgument f h => exact (h.call f [] hnone).begin hl
  | @noArgument f =>
    cases h with
    | firstArgument _ h =>
      have hcall : Derives 7 [.name f, .leftParen, .rightParen] (.call f []) := .call f hnone
      rw [List.append_assoc]
      exact .operator h hcall
  | @arguments f =>
    cases h with
    | callee _ h =>
      rw [List.append_assoc]
      exact .firstArgument f h
  | colon =>
    cases h with
    | reference h hr =>
      rw [List.append_assoc]
      exact .rangeEnd h hr
  | rangeEnd hlast =>
    cases h with
    | rangeEnd h hfirst =>
      rw [List.append_assoc]
      exact .operator h (.range hfirst hlast)
  | behind hs hl => exact (h.endsWith hs).continue hl

theorem Consumed.steps {ls' : List Lexeme} {s s' : State} (h : Consumed s ls)
    (hsteps : Steps s ls' s') : Consumed s' (ls ++ ls') := by
  induction hsteps generalizing ls with
  | nil =>
    rw [List.append_nil]
    exact h
  | cons hstep _ ih =>
    have hrest := ih (h.step hstep)
    rwa [List.append_assoc] at hrest

/-- Lexemes are read to their end as a formula if and only if the grammar derives it from them. -/
theorem steps_finish_iff : (∃ s, Steps ⟨[], .operand⟩ ls s ∧ s.finish? = some e) ↔
    Derives 1 ls e := by
  constructor
  · rintro ⟨s, hsteps, hfinish⟩
    obtain ⟨frames, e', hs, hcomplete⟩ := finish?_eq_some_iff.mp hfinish
    have hread := (Consumed.operand .nil).steps hsteps
    obtain ⟨⟨before, es, hls, hopened, he⟩, _⟩ :=
      (hread.endsWith hs).complete (by omega) hcomplete
    cases hopened with
    | nil =>
      rw [List.nil_append, List.nil_append] at hls
      rw [hls]
      exact he
  · intro h
    obtain ⟨s, frames, e', hsteps, hs, hcomplete⟩ :=
      @readsAs_of_derives 1 ls e h [] (Nat.le_refl 1)
    exact ⟨s, hsteps, finish?_eq_some_iff.mpr ⟨frames, e', hs, hcomplete 0 (Nat.zero_le 1)⟩⟩

end Reader

/-- The grammar is unambiguous. -/
theorem Derives.unique {ls : List Lexeme} {e e' : Expr} (h : Derives 1 ls e)
    (h' : Derives 1 ls e') : e = e' := by
  obtain ⟨s, hsteps, hfinish⟩ := Reader.steps_finish_iff.mpr h
  obtain ⟨s', hsteps', hfinish'⟩ := Reader.steps_finish_iff.mpr h'
  obtain rfl := hsteps.unique hsteps'
  exact Option.some.inj (hfinish.symm.trans hfinish')

end Recalc
