import ObjectQuery.Decimal.Shortest
import ObjectQuery.Json.Basic

/-! Numbers in JSON texts. A numeral without fraction and exponent is an integer as long as it
lies within -2^63 .. 2^64 - 1 and is not a negative zero; all others are doubles. -/
namespace ObjectQuery

open Decimal

structure Numeral where
  negative : Bool
  whole : List Char
  fraction : Option (List Char)
  exponent : Option (Bool × List Char)

namespace Numeral

/-- A run of digits, at least one, and what follows it. -/
def run? (cs : List Char) : Option (List Char × List Char) :=
  match cs.takeWhile isDigit with
  | [] => none
  | ds => some (ds, cs.dropWhile isDigit)

def sign (cs : List Char) : Bool × List Char :=
  match cs with
  | '-' :: rest => (true, rest)
  | _ => (false, cs)

/-- No zero stands before other digits. -/
def isWhole : List Char → Bool
  | '0' :: _ :: _ => false
  | _ => true

def readFraction? (cs : List Char) : Option (Option (List Char) × List Char) :=
  match cs with
  | '.' :: rest => (run? rest).map fun (ds, rest) => (some ds, rest)
  | _ => some (none, cs)

def readExponent? (cs : List Char) : Option (Option (Bool × List Char) × List Char) :=
  match cs with
  | c :: rest =>
    if c = 'e' ∨ c = 'E' then
      let (negative, rest) := match rest with
        | '+' :: rest => (false, rest)
        | rest => sign rest
      (run? rest).map fun (ds, rest) => (some (negative, ds), rest)
    else some (none, cs)
  | [] => some (none, [])

def read? (cs : List Char) : Option Numeral := do
  let (negative, cs) := sign cs
  let (whole, cs) ← run? cs
  let (fraction, cs) ← readFraction? cs
  let (exponent, cs) ← readExponent? cs
  if isWhole whole && cs.isEmpty then some ⟨negative, whole, fraction, exponent⟩ else none

/-- Digits collected into 64 bits. The first digit that does not fit closes the collection. -/
structure Collected where
  value : Nat
  exponent : Int
  closed : Bool

def Collected.takes (s : Collected) (d : Nat) : Bool := !s.closed && s.value * 10 + d < Nat.pow 2 64

/-- A digit before the point: one that is not taken counts as a further power of ten. -/
def Collected.whole (s : Collected) (c : Char) : Collected :=
  if s.takes (digitValue c) then { s with value := s.value * 10 + digitValue c }
  else { s with exponent := s.exponent + 1, closed := true }

/-- A digit behind the point: one that is not taken is lost. -/
def Collected.fraction (s : Collected) (c : Char) : Collected :=
  if s.takes (digitValue c) then
    { s with value := s.value * 10 + digitValue c, exponent := s.exponent - 1 }
  else { s with closed := true }

def collect (n : Numeral) : Collected :=
  let s := n.whole.foldl Collected.whole ⟨0, 0, false⟩
  (n.fraction.getD []).foldl Collected.fraction { s with closed := false }

def power (e : Nat) : Float := Float.ofScientific 1 false e

/-- One multiplication or division by a power of ten, rounded once. Powers beyond 10^308 are no
doubles: a division by one goes in steps of 10^308, a product with one has no value. -/
def scale (f : Float) (e : Int) : Option Float :=
  if h : e < -308 then
    if f == 0 then some f else scale (f / power 308) (e + 308)
  else if e < 0 then some (f / power (-e).toNat)
  else if 308 < e then if f == 0 then some f else none
  else
    let scaled := f * power e.toNat
    if scaled.isInf then none else some scaled
termination_by e.natAbs
decreasing_by omega

def double? (n : Numeral) : Option Number := do
  let s := n.collect
  let shift : Int := match n.exponent with
    | none => 0
    | some (negative, ds) => if negative then -(value ds : Int) else value ds
  let f ← scale (Float.ofNat s.value) (s.exponent + shift)
  some (.double (if n.negative then -f else f).toBits)

def number? (n : Numeral) : Option Number :=
  if n.fraction.isSome || n.exponent.isSome then n.double?
  else
    let magnitude := value n.whole
    if n.negative then
      if 0 < magnitude ∧ magnitude ≤ Nat.pow 2 63 then some (.int (-magnitude)) else n.double?
    else if magnitude < Nat.pow 2 64 then some (.int magnitude) else n.double?

end Numeral

namespace Number

def read? (cs : List Char) : Option Number := (Numeral.read? cs).bind Numeral.number?

/-- Doubles from 0.00001 up to 10^16 are written in full, others with an exponent, which has a
sign. -/
def style : Notation := ⟨-5, 15, 'e', ['+']⟩

def digitsOfInt (i : Int) : List Char :=
  if i < 0 then '-' :: digits i.natAbs else digits i.natAbs

def render : Number → List Char
  | .int i => digitsOfInt i
  | .double bits => style.render bits

end Number

end ObjectQuery
