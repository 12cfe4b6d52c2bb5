/-! Decimal digits of naturals: written most significant first, read by position. -/
namespace ObjectQuery.Decimal

def isDigit (c : Char) : Bool := '0' ≤ c && c ≤ '9'
def digitValue (c : Char) : Nat := c.toNat - 48
def digitChar (d : Nat) : Char := Char.ofNat (48 + d)

def digits (n : Nat) : List Char :=
  if n < 10 then [digitChar n] else digits (n / 10) ++ [digitChar (n % 10)]

def valueFrom (start : Nat) (cs : List Char) : Nat :=
  cs.foldl (fun n c => 10 * n + digitValue c) start

def value (cs : List Char) : Nat := valueFrom 0 cs

theorem digitValue_digitChar {d : Nat} (h : d < 10) : digitValue (digitChar d) = d := by
  have all : ∀ d < 10, digitValue (digitChar d) = d := by decide
  exact all d h

theorem valueFrom_append (start : Nat) (as bs : List Char) :
    valueFrom start (as ++ bs) = valueFrom (valueFrom start as) bs := by
  simp [valueFrom]

@[simp] theorem value_digits (n : Nat) : value (digits n) = n := by
  fun_induction digits n with
  | case1 n small => simp [value, valueFrom, digitValue_digitChar small]
  | case2 n _ ih =>
    have low : n % 10 < 10 := Nat.mod_lt _ (by omega)
    simp only [value] at ih ⊢
    rw [valueFrom_append, ih]
    simp only [valueFrom, List.foldl_cons, List.foldl_nil, digitValue_digitChar low]
    omega

end ObjectQuery.Decimal
