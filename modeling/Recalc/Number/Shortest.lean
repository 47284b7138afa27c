import Recalc.Number.Decimal

namespace Recalc

namespace Number

def isNegative (x : Float) : Bool := x.toBits >>> 63 == 1

/-- The weight of the leading bit of a normal double, which its bit pattern leaves out. -/
def hiddenBit : Nat := 4503599627370496

/-- The exact size of a finite double as `m · 2 ^ q`. -/
def binary (x : Float) : Nat × Int :=
  let bits : Nat := x.toBits.toNat
  let biased : Nat := bits / hiddenBit % 2048
  let fraction : Nat := bits % hiddenBit
  if biased = 0 then (fraction, -1074) else (fraction + hiddenBit, (biased : Int) - 1075)

/-- A finite double as a decimal, no digit lost. -/
def exact (x : Float) : Decimal :=
  let (m, q) := binary x
  if q ≥ 0 then ⟨isNegative x, m * Nat.pow 2 q.toNat, 0⟩
  else ⟨isNegative x, m * Nat.pow 5 q.natAbs, q⟩

/-- The neighbours of a decimal among those with `n` digits, if it has more than `n` itself: the
one toward zero, the one away from zero, and whether the first is strictly the nearer. -/
def neighbours (d : Decimal) (n : Nat) : Option (Decimal × Decimal × Bool) :=
  let extra := (Decimal.spell d.digits).length - n
  if extra = 0 then none
  else
    let unit := Nat.pow 10 extra
    let below := d.digits / unit
    some (⟨d.negative, below, d.exponent + extra⟩, ⟨d.negative, below + 1, d.exponent + extra⟩,
      2 * (d.digits % unit) < unit)

/-- Whether the notation of a decimal is read as exactly this number. -/
def readsBack (x : Float) (d : Decimal) : Bool :=
  (Decimal.read? d.positional).any fun e => e.toFloat.toBits == x.toBits

/-- Of the decimals with `n` digits next to `x`, the nearest that reads back as `x`; of two equally
near ones the one away from zero. -/
def withDigits? (x : Float) (n : Nat) : Option Decimal :=
  match neighbours (exact x) n with
  | none => none
  | some (below, above, belowNearer) =>
    (if belowNearer then [below, above] else [above, below]).find? (readsBack x)

/-- The fewest digits that read back as the finite double `x`, and of those the nearest to it. -/
def shortest (x : Float) : Decimal :=
  ((List.range' 1 17).findSome? (withDigits? x)).getD (exact x)

end Number

end Recalc
