import ObjectQuery.Decimal.Digits

/-! Doubles as exact multiples of powers of two, and the shortest decimal that reads back to one.
The reals that round to m * 2^q reach halfway to its neighbours, ends included when m is even.
On the grids of one, two, up to seventeen digits only the two neighbours of the value are tried:
if any point of a grid lies in that interval, one of them does. -/
namespace ObjectQuery.Decimal

/-- The magnitude m * 2^q of a finite double. Just above a power of two the gap below is half
the gap above. -/
structure Binary where
  m : Nat
  q : Int
  narrow : Bool

structure Scaled where
  coefficient : Nat
  exponent : Int
  deriving DecidableEq, Repr

def isNegative (bits : UInt64) : Bool := bits >>> 63 == 1

def Binary.ofBits (bits : UInt64) : Binary :=
  let e := ((bits >>> 52) &&& 0x7FF).toNat
  let f := (bits &&& 0xFFFFFFFFFFFFF).toNat
  if e = 0 then ⟨f, -1074, false⟩ else ⟨Nat.pow 2 52 + f, (e : Int) - 1075, f = 0 && 1 < e⟩

/-- Compares a * 10^i with n * 2^j without rounding. -/
def compareScaled (a : Nat) (i : Int) (n : Nat) (j : Int) : Ordering :=
  compare (a * Nat.pow 10 i.toNat * Nat.pow 2 (-j).toNat)
    (n * Nat.pow 2 j.toNat * Nat.pow 10 (-i).toNat)

/-- The decimal lies among the reals that round to the double. -/
def Binary.readsBack (x : Binary) (d : Scaled) : Bool :=
  let low := if x.narrow then 4 * x.m - 1 else 4 * x.m - 2
  let inclusive := x.m % 2 == 0
  let below := compareScaled d.coefficient d.exponent low (x.q - 2)
  let above := compareScaled d.coefficient d.exponent (4 * x.m + 2) (x.q - 2)
  (below == .gt || inclusive && below == .eq) && (above == .lt || inclusive && above == .eq)

/-- The least k with num / den < 10^k, for a quotient that is not zero. The search below one
ends at the first power that reaches the quotient; 400 exceeds the exponent of every double. -/
def magnitude (num den : Nat) : Int :=
  if den ≤ num then (digits (num / den)).length
  else
    let reaching := (List.range 400).find? fun j => den ≤ num * Nat.pow 10 (j + 1)
    1 - reaching.elim 0 fun j => (j : Int) + 1

/-- Of two neighbours that both read back the nearer is taken, the even one from the middle. -/
def nearer (x : Binary) (d : Scaled) : Scaled :=
  match compareScaled (2 * d.coefficient + 1) d.exponent (2 * x.m) x.q with
  | .gt => d
  | .lt => { d with coefficient := d.coefficient + 1 }
  | .eq => if d.coefficient % 2 = 0 then d else { d with coefficient := d.coefficient + 1 }

def Binary.shortest (x : Binary) : Scaled :=
  let num := x.m * Nat.pow 2 x.q.toNat
  let den := Nat.pow 2 (-x.q).toNat
  let top := magnitude num den
  let candidate (n : Nat) : Option Scaled :=
    let e := top - (n + 1)
    let low : Scaled := ⟨num * Nat.pow 10 (-e).toNat / (den * Nat.pow 10 e.toNat), e⟩
    let high : Scaled := { low with coefficient := low.coefficient + 1 }
    match x.readsBack low, x.readsBack high with
    | true, true => some (nearer x low)
    | true, false => some low
    | false, true => some high
    | false, false => none
  ((List.range 17).findSome? candidate).getD ⟨x.m, 0⟩

/-- Trailing zeros move into the exponent. -/
def Scaled.strip (d : Scaled) : Nat → Scaled
  | 0 => d
  | fuel + 1 =>
    if d.coefficient ≠ 0 ∧ d.coefficient % 10 = 0 then
      strip ⟨d.coefficient / 10, d.exponent + 1⟩ fuel
    else d

/-- Where a decimal is written out in full and where with an exponent. `leading` is the exponent
of its first digit. -/
structure Notation where
  plainFrom : Int
  plainTo : Int
  expMark : Char
  expPlus : List Char

def Notation.isPlain (style : Notation) (leading : Int) : Bool :=
  style.plainFrom ≤ leading && leading ≤ style.plainTo

def Notation.layout (style : Notation) (d : Scaled) : List Char :=
  let ds := digits d.coefficient
  let leading : Int := d.exponent + ds.length - 1
  if style.isPlain leading then
    if 0 ≤ d.exponent then ds ++ List.replicate d.exponent.toNat '0' ++ ['.', '0']
    else if 0 ≤ leading then
      ds.take (leading.toNat + 1) ++ '.' :: ds.drop (leading.toNat + 1)
    else '0' :: '.' :: List.replicate (-leading - 1).toNat '0' ++ ds
  else
    let fraction := if ds.length = 1 then [] else '.' :: ds.drop 1
    let sign := if leading < 0 then ['-'] else style.expPlus
    ds.take 1 ++ fraction ++ style.expMark :: sign ++ digits leading.natAbs

/-- The text of a finite double: its sign, also of zero, and the shortest digits. -/
def Notation.render (style : Notation) (bits : UInt64) : List Char :=
  let x := Binary.ofBits bits
  let body := if x.m = 0 then ['0', '.', '0'] else style.layout (x.shortest.strip 17)
  if isNegative bits then '-' :: body else body

end ObjectQuery.Decimal
