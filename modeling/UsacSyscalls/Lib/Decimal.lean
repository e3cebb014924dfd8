import Mathlib.Algebra.Ring.Int.Defs
import Mathlib.Algebra.Ring.Nat

/-!
# Decimal numbers as bytes

`decimal` prints a natural number, `integer` an integer, as C does; `value` reads digits back.

* `value_decimal` — reading back what was printed.
* `decimal_length_le` — a number below `10 ^ k` has at most `k` digits.
* `decimal_head` — a positive number has no leading zero.
-/

set_option autoImplicit false

namespace Lib.Decimal

def isDigit (b : UInt8) : Bool := 48 ≤ b && b ≤ 57

/-- The digit `d`, for `d < 10`. -/
def digit (d : Nat) : UInt8 := (48 + d).toUInt8

def decimal (n : Nat) : List UInt8 := (Nat.toDigits 10 n).map fun c => c.toNat.toUInt8

/-- `%d`. -/
def integer (i : Int) : List UInt8 :=
  if i < 0 then 45 :: decimal i.natAbs else decimal i.natAbs

/-- The number a string of digits denotes. -/
def value (ds : List UInt8) : Nat := ds.foldl (fun v b => 10 * v + (b.toNat - 48)) 0

theorem digit_toNat {d : Nat} (h : d < 10) : (digit d).toNat = 48 + d := by
  unfold digit
  rw [UInt8.toNat_ofNat']
  omega

theorem isDigit_digit {d : Nat} (h : d < 10) : isDigit (digit d) = true := by
  have := digit_toNat h
  simp only [isDigit, Bool.and_eq_true, decide_eq_true_eq, UInt8.le_iff_toNat_le, this]
  constructor
  · show 48 ≤ 48 + d; omega
  · show 48 + d ≤ 57; omega

theorem decimal_of_lt {n : Nat} (h : n < 10) : decimal n = [digit n] := by
  unfold decimal digit
  rw [Nat.toDigits_of_lt_base h, List.map_singleton, Nat.toNat_digitChar_of_lt_ten h]

theorem decimal_of_ge {n : Nat} (h : 10 ≤ n) :
    decimal n = decimal (n / 10) ++ [digit (n % 10)] := by
  unfold decimal digit
  rw [Nat.toDigits_of_base_le (by omega) h, List.map_append, List.map_singleton,
    Nat.toNat_digitChar_of_lt_ten (by omega)]

/-- Induction along the digits of a number. -/
theorem decimal_induction {P : Nat → Prop} (single : ∀ n, n < 10 → P n)
    (more : ∀ n, 10 ≤ n → P (n / 10) → P n) (n : Nat) : P n := by
  induction n using Nat.strongRecOn with
  | ind n ih =>
    by_cases h : n < 10
    · exact single n h
    · exact more n (by omega) (ih (n / 10) (by omega))

theorem decimal_ne_nil (n : Nat) : decimal n ≠ [] := by
  unfold decimal
  rw [ne_eq, List.map_eq_nil_iff]
  exact Nat.toDigits_ne_nil

theorem isDigit_of_mem_decimal {n : Nat} {b : UInt8} (h : b ∈ decimal n) : isDigit b = true := by
  induction n using decimal_induction with
  | single n hn =>
    rw [decimal_of_lt hn, List.mem_singleton] at h
    subst h
    exact isDigit_digit hn
  | more n hn ih =>
    rw [decimal_of_ge hn, List.mem_append, List.mem_singleton] at h
    rcases h with h | rfl
    · exact ih h
    · exact isDigit_digit (by omega)

theorem value_append_digit (ds : List UInt8) {d : Nat} (h : d < 10) :
    value (ds ++ [digit d]) = 10 * value ds + d := by
  unfold value
  rw [List.foldl_append, List.foldl_cons, List.foldl_nil, digit_toNat h]
  omega

/-- **Reading back what was printed.** -/
theorem value_decimal (n : Nat) : value (decimal n) = n := by
  induction n using decimal_induction with
  | single n hn =>
    rw [decimal_of_lt hn]
    show 10 * 0 + ((digit n).toNat - 48) = n
    rw [digit_toNat hn]
    omega
  | more n hn ih =>
    rw [decimal_of_ge hn, value_append_digit _ (by omega), ih]
    omega

theorem decimal_length_le {n k : Nat} (hk : 0 < k) (h : n < 10 ^ k) : (decimal n).length ≤ k := by
  unfold decimal
  rw [List.length_map]
  exact (Nat.length_toDigits_le_iff (by omega) hk).mpr h

/-- A positive number has no leading zero. -/
theorem decimal_head {n : Nat} (h : 0 < n) : (decimal n).head? ≠ some 48 := by
  induction n using decimal_induction with
  | single n hn =>
    rw [decimal_of_lt hn, List.head?_cons]
    intro h0
    have := congrArg UInt8.toNat (Option.some.inj h0)
    rw [digit_toNat hn] at this
    simp at this
    omega
  | more n hn ih =>
    rw [decimal_of_ge hn]
    cases hd : decimal (n / 10) with
    | nil => exact absurd hd (decimal_ne_nil _)
    | cons b bs =>
      have := ih (by omega)
      rw [hd] at this
      exact this

/-- A 64-bit number has at most 20 digits. -/
theorem decimal_length_uint64 (n : UInt64) : (decimal n.toNat).length ≤ 20 :=
  decimal_length_le (by omega) (by have := n.toNat_lt; omega)

/-- A 32-bit integer is printed in at most 11 characters. -/
theorem integer_length_int32 (i : Int32) : (integer i.toInt).length ≤ 11 := by
  have hlo := i.le_toInt
  have hhi := i.toInt_lt
  have := decimal_length_le (n := i.toInt.natAbs) (k := 10) (by omega) (by omega)
  unfold integer
  split
  · rw [List.length_cons]; omega
  · omega

end Lib.Decimal
