import Mathlib.Algebra.Order.Ring.Int
import Mathlib.Data.List.Basic
import Mathlib.Data.List.TakeWhile
import ObjectQuery.Json.Numeral

/-! Integers in JSON texts. The digits of an integer within the range of integers are a numeral
that stands for it: no zero stands before them, and they do not run over into a double. -/
namespace ObjectQuery

open Decimal

namespace Decimal

theorem isDigit_digitChar {d : Nat} (small : d < 10) : isDigit (digitChar d) = true := by
  have all : ∀ d < 10, isDigit (digitChar d) = true := by decide
  exact all d small

theorem digitChar_ne_zero {d : Nat} (small : d < 10) (positive : d ≠ 0) : digitChar d ≠ '0' := by
  have all : ∀ d < 10, d ≠ 0 → digitChar d ≠ '0' := by decide
  exact all d small positive

theorem isDigit_digits (n : Nat) : ∀ c ∈ digits n, isDigit c = true := by
  fun_induction digits n with
  | case1 n small => simpa using isDigit_digitChar small
  | case2 n _ ih =>
    intro c member
    rcases List.mem_append.mp member with front | last
    · exact ih c front
    · rw [List.mem_singleton] at last
      subst last
      apply isDigit_digitChar
      omega

theorem digits_ne_nil (n : Nat) : digits n ≠ [] := by
  unfold digits
  split <;> simp

/-- Only the digits of zero start with one. -/
theorem digits_head {n : Nat} (positive : n ≠ 0) : ∀ c ∈ (digits n).head?, c ≠ '0' := by
  fun_induction digits n with
  | case1 n small => simpa using digitChar_ne_zero small positive
  | case2 n large ih =>
    rw [List.head?_append_of_ne_nil _ (digits_ne_nil _)]
    apply ih
    omega

end Decimal

namespace Numeral

theorem run?_of_digits {ds : List Char} (each : ∀ c ∈ ds, isDigit c = true) (some : ds ≠ []) :
    run? ds = .some (ds, []) := by
  have taken : ds.takeWhile isDigit = ds := List.takeWhile_eq_self_iff.mpr each
  have dropped : ds.dropWhile isDigit = [] := List.dropWhile_eq_nil_iff.mpr each
  rw [run?, taken, dropped]
  split
  · exact absurd rfl some
  · rfl

theorem isWhole_digits (n : Nat) : isWhole (digits n) = true := by
  unfold isWhole
  split
  · next second rest same =>
    by_cases zero : n = 0
    · subst zero
      rw [digits, if_pos (by omega)] at same
      cases same
    · exact absurd rfl (digits_head zero '0' (by rw [same]; rfl))
  · rfl

theorem sign_digits (n : Nat) : sign (digits n) = (false, digits n) := by
  unfold sign
  split
  · next rest same =>
    have digit := isDigit_digits n '-' (by rw [same]; exact List.mem_cons_self)
    exact absurd digit (by decide)
  · rfl

theorem read?_of_sign {cs : List Char} {negative : Bool} {n : Nat}
    (signed : sign cs = (negative, digits n)) :
    read? cs = some ⟨negative, digits n, none, none⟩ := by
  have run := run?_of_digits (isDigit_digits n) (digits_ne_nil n)
  simp [read?, signed, run, readFraction?, readExponent?, isWhole_digits]

theorem number?_whole (negative : Bool) (n : Nat) (bound : n < 2 ^ 64)
    (least : negative = true → 0 < n ∧ n ≤ 2 ^ 63) :
    number? ⟨negative, digits n, none, none⟩ = some (.int (if negative then -n else n)) := by
  cases negative with
  | false =>
    have fits : n < Nat.pow 2 64 := bound
    simp only [number?, value_digits, Option.isSome_none, Bool.or_self, Bool.false_eq_true,
      if_false, if_pos fits]
  | true =>
    have fits : 0 < n ∧ n ≤ Nat.pow 2 63 := least rfl
    simp only [number?, value_digits, Option.isSome_none, Bool.or_self, Bool.false_eq_true,
      if_false, if_true, if_pos fits]

end Numeral

namespace Number

/-- An integer in the range of integers is read from its digits. -/
theorem read?_digitsOfInt {i : Int} (low : -2 ^ 63 ≤ i) (high : i < 2 ^ 64) :
    read? (digitsOfInt i) = some (.int i) := by
  unfold digitsOfInt
  split
  · next negative =>
    have number := Numeral.number?_whole true i.natAbs (by omega) (by omega)
    have numeral : Numeral.read? ('-' :: digits i.natAbs) = _ := Numeral.read?_of_sign rfl
    have same : -(i.natAbs : Int) = i := by omega
    rw [read?, numeral, Option.bind_some, number, if_pos rfl, same]
  · next positive =>
    have number := Numeral.number?_whole false i.natAbs (by omega) (by simp)
    have numeral := Numeral.read?_of_sign (Numeral.sign_digits i.natAbs)
    have same : (i.natAbs : Int) = i := by omega
    rw [read?, numeral, Option.bind_some, number, if_neg Bool.false_ne_true, same]

end Number

end ObjectQuery
