import Recalc.Proofs.Formula.Printing

namespace Recalc

namespace Frame

variable {strength : Nat} {e result : Expr} {frames rest : List Frame}

theorem length_negate_le (e : Expr) (frames : List Frame) :
    (negate e frames).2.length ≤ frames.length := by
  induction frames generalizing e with
  | nil => exact Nat.le_refl 0
  | cons frame frames ih =>
    cases frame with
    | negation => exact Nat.le_succ_of_le (ih (.neg e))
    | leftOf | group | call => exact Nat.le_refl _

theorem length_close_le (strength : Nat) (e : Expr) (frames : List Frame) :
    (close strength e frames).2.length ≤ frames.length := by
  induction frames generalizing e with
  | nil => exact Nat.le_refl 0
  | cons frame frames ih =>
    cases frame with
    | leftOf op left =>
      rw [close]
      split
      next => exact Nat.le_succ_of_le (ih (.binary op left e))
      next => exact Nat.le_refl _
    | negation | group | call => exact Nat.le_refl _

theorem length_le_of_complete (h : complete strength e frames = (result, rest)) :
    rest.length ≤ frames.length := by
  have hclose := length_close_le strength (negate e frames).1 (negate e frames).2
  rw [complete] at h
  rw [h] at hclose
  exact hclose.trans (length_negate_le e frames)

end Frame

namespace Reader

variable {frames : List Frame} {ls : List Lexeme} {e : Expr} {s : State}

/-- Behind an operand nothing but closing parentheses is missing. -/
theorem Consumed.close (h : Consumed s ls) (hs : s.Behind frames e) :
    ∃ count s' result, Steps s (List.replicate count .rightParen) s' ∧
      s'.finish? = some result := by
  induction hlength : frames.length using Nat.strongRecOn generalizing frames e s ls with
  | ind length ih =>
    obtain ⟨result, rest, hcomplete⟩ : ∃ result rest,
        Frame.complete 0 e frames = (result, rest) := ⟨_, _, rfl⟩
    have hle := Frame.length_le_of_complete hcomplete
    obtain ⟨_, hlevel⟩ := (h.endsWith hs).complete (by omega) hcomplete
    cases rest with
    | nil => exact ⟨0, s, result, .nil, finish?_eq_some_iff.mpr ⟨frames, e, hs, hcomplete⟩⟩
    | cons frame rest =>
      rw [List.length_cons] at hle
      have hclose : ∀ e', Step s .rightParen ⟨rest, .operator e'⟩ →
          ∃ count s' result, Steps s (List.replicate count .rightParen) s' ∧
            s'.finish? = some result := by
        intro e' hstep
        obtain ⟨count, s', result, hsteps, hfinish⟩ :=
          ih rest.length (by omega) (h.step hstep) .whole rfl
        exact ⟨count + 1, s', result, .cons hstep hsteps, hfinish⟩
      cases frame with
      | negation => simp [Frame.level] at hlevel
      | leftOf op left =>
        have hpos := op.strength_pos
        simp only [Frame.level] at hlevel
        omega
      | group => exact hclose _ (.behind hs (.group hcomplete))
      | call f args => exact hclose _ (.behind hs (.lastArgument hcomplete))

/-- The reference that completes an operand. -/
def topLeft : Reference := ⟨⟨0, 0⟩, false, false⟩

end Reader

end Recalc
