import ObjectQuery.Decimal.Digits

/-! Naturals written in other bases than ten. -/
namespace ObjectQuery.Decimal

def hexValue? (c : Char) : Option Nat :=
  if isDigit c then some (digitValue c)
  else if 'a' ≤ c ∧ c ≤ 'f' then some (c.toNat - 87)
  else if 'A' ≤ c ∧ c ≤ 'F' then some (c.toNat - 55)
  else none

def digitIn? (base : Nat) (c : Char) : Option Nat := (hexValue? c).filter (· < base)

/-- The natural that a run of digits stands for. There is at least one. -/
def valueIn? (base : Nat) (cs : List Char) : Option Nat :=
  if cs.isEmpty then none
  else cs.foldlM (fun n c => (digitIn? base c).map fun d => base * n + d) 0

end ObjectQuery.Decimal
