/-!
# Cutting a range into equal tiles

`n` positions are cut into `m` tiles of `n / m` positions each; the last tile also takes the
`n % m` positions that remain.  The tiles lie inside the range, follow one another without a gap,
and cover it, also when there are more tiles than positions (then all but the last are empty).
-/

set_option autoImplicit false

namespace Lib.Tiling

def tileLo (n m j : Nat) : Nat := j * (n / m)

def tileHi (n m j : Nat) : Nat :=
  if j + 1 = m then (j + 1) * (n / m) + n % m else (j + 1) * (n / m)

variable {n m : Nat}

theorem tileLo_le_tileHi (n m j : Nat) : tileLo n m j ≤ tileHi n m j := by
  have h : j * (n / m) ≤ (j + 1) * (n / m) := Nat.mul_le_mul_right _ (by omega)
  unfold tileLo tileHi
  split <;> omega

theorem mul_div_le_of_le {j : Nat} (hj : j ≤ m) : j * (n / m) ≤ n :=
  calc j * (n / m) ≤ m * (n / m) := Nat.mul_le_mul_right _ hj
    _ ≤ n := Nat.mul_div_le n m

/-- The last tile ends where the range ends. -/
theorem tileHi_last {j : Nat} (hj : j + 1 = m) : tileHi n m j = n := by
  unfold tileHi
  rw [if_pos hj, hj]
  exact Nat.div_add_mod n m

theorem tileHi_le {j : Nat} (hj : j < m) : tileHi n m j ≤ n := by
  by_cases h : j + 1 = m
  · exact Nat.le_of_eq (tileHi_last h)
  · unfold tileHi
    rw [if_neg h]
    exact mul_div_le_of_le (by omega)

/-- A later tile starts at or after the end of an earlier one. -/
theorem tileHi_le_tileLo {i j : Nat} (hij : i < j) (hj : j < m) : tileHi n m i ≤ tileLo n m j := by
  unfold tileHi tileLo
  rw [if_neg (by omega)]
  exact Nat.mul_le_mul_right _ hij

/-- **Every position lies in some tile.** -/
theorem exists_tile (hm : 0 < m) {x : Nat} (hx : x < n) :
    ∃ j, j < m ∧ tileLo n m j ≤ x ∧ x < tileHi n m j := by
  by_cases hlast : (m - 1) * (n / m) ≤ x
  · exact ⟨m - 1, by omega, hlast, by rw [tileHi_last (by omega)]; exact hx⟩
  · have hq : 0 < n / m := by
      rcases Nat.eq_zero_or_pos (n / m) with h | h
      · simp [h] at hlast
      · exact h
    have hlt : x / (n / m) < m - 1 := (Nat.div_lt_iff_lt_mul hq).mpr (by omega)
    refine ⟨x / (n / m), by omega, Nat.div_mul_le_self x (n / m), ?_⟩
    unfold tileHi
    rw [if_neg (by omega), Nat.mul_comm]
    exact Nat.lt_mul_div_succ x hq

end Lib.Tiling
