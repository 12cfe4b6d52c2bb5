import ObjectQuery.Json.Numeral

/-! The order of numbers and the sameness of values. Numbers are compared by what they stand for,
without rounding: 1 and 1.0 are the same. -/
namespace ObjectQuery

namespace Number

/-- The number as i * 2^j. -/
def scaled : Number → Int × Int
  | .int i => (i, 0)
  | .double bits =>
    let x := Decimal.Binary.ofBits bits
    (if Decimal.isNegative bits then -(x.m : Int) else x.m, x.q)

def order (a b : Number) : Ordering :=
  let (i, p) := a.scaled
  let (j, q) := b.scaled
  compare (i * Nat.pow 2 (p - q).toNat) (j * Nat.pow 2 (q - p).toNat)

def same (a b : Number) : Bool := a.order b == .eq

def isIntegral : Number → Bool
  | .int _ => true
  | .double bits =>
    let x := Decimal.Binary.ofBits bits
    x.m % Nat.pow 2 (-x.q).toNat == 0

/-- The natural next to an integer: the integer itself, or zero for a negative one. -/
def clamped? (n : Number) : Option Nat :=
  let (i, p) := n.scaled
  if n.isIntegral then some (i.toNat * Nat.pow 2 p.toNat / Nat.pow 2 (-p).toNat) else none

/-- The natural that the number stands for. -/
def nat? (n : Number) : Option Nat := if 0 ≤ n.scaled.1 then n.clamped? else none

end Number

namespace Json

mutual

def same : Json → Json → Bool
  | .null, .null => true
  | .bool a, .bool b => a == b
  | .num a, .num b => a.same b
  | .str a, .str b => a == b
  | .arr as, .arr bs => sameItems as bs
  | .obj as, .obj bs => sameMembers as bs
  | _, _ => false

def sameItems : List Json → List Json → Bool
  | [], [] => true
  | a :: as, b :: bs => a.same b && sameItems as bs
  | _, _ => false

def sameMembers : List (String × Json) → List (String × Json) → Bool
  | [], [] => true
  | (m, a) :: as, (n, b) :: bs => m == n && a.same b && sameMembers as bs
  | _, _ => false

end

end Json

end ObjectQuery
