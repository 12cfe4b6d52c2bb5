import ObjectQuery.Decimal.Shortest

/-! The double nearest to a decimal, in exact arithmetic. A quotient is rounded once, to a multiple
of the power of two that leaves it 53 digits; the least doubles are multiples of 2^-1074 and have
fewer. -/
namespace ObjectQuery.Decimal

/-- The natural nearest to a quotient, the even one from the middle. -/
def roundDiv (num den : Nat) : Nat :=
  let low := num / den
  match compare (2 * (num % den)) den with
  | .lt => low
  | .gt => low + 1
  | .eq => low + low % 2

/-- The q for which a quotient that is not zero has 53 binary digits as a multiple of 2^q, unless
that lies below the least double. -/
def binade (num den : Nat) : Int :=
  let top : Int := (num.log2 : Int) - den.log2
  let reached := den * Nat.pow 2 top.toNat ≤ num * Nat.pow 2 (-top).toNat
  max (if reached then top - 52 else top - 53) (-1074)

/-- The bits of the double m * 2^q, where m has at most 53 digits or is 2^53, and fewer than 53 only
in the least binade. The first digit of the others is not stored, so it goes into the exponent. No
finite double reaches 2^1024. -/
def bits? (m : Nat) (q : Int) : Option UInt64 :=
  let bits := (q + 1074).toNat * Nat.pow 2 52 + m
  if bits < 2047 * Nat.pow 2 52 then some (UInt64.ofNat bits) else none

def nearestQuotient? (num den : Nat) : Option UInt64 :=
  if num = 0 then some 0
  else
    let q := binade num den
    bits? (roundDiv (num * Nat.pow 2 (-q).toNat) (den * Nat.pow 2 q.toNat)) q

/-- The bits of the nearest double, if it is finite. Decimals from 10^310 on are known to be too
large for one, and those below 10^-330 to be too small. -/
def Scaled.nearest? (d : Scaled) : Option UInt64 :=
  let top := d.exponent + (digits d.coefficient).length
  if d.coefficient = 0 ∨ top < -330 then some 0
  else if 310 < top then none
  else nearestQuotient? (d.coefficient * Nat.pow 10 d.exponent.toNat)
    (Nat.pow 10 (-d.exponent).toNat)

end ObjectQuery.Decimal
