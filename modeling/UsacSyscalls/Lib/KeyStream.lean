import Mathlib.Data.Nat.Periodic

/-!
# Streams that repeat a key

* `keyStream` — a non-empty list repeated without end; its period is the length of the list.
* `eq_of_agree` — two periodic sequences that agree on as many positions as their periods have
  together agree everywhere.
-/

set_option autoImplicit false

namespace Lib.KeyStream

open Function

variable {α : Type}

/-- The key repeated without end. -/
def keyStream (d : α) (key : List α) (i : Nat) : α := key.getD (i % key.length) d

theorem keyStream_periodic (d : α) (key : List α) : Periodic (keyStream d key) key.length := by
  intro i
  unfold keyStream
  rw [Nat.add_mod_right]

/-- **Agreement on the sum of the periods is agreement for ever.** -/
theorem eq_of_agree {f g : Nat → α} {p q : Nat} (hf : Periodic f p) (hg : Periodic g q)
    (hp : 0 < p) (hq : 0 < q) (h : ∀ i < p + q, f i = g i) : f = g := by
  funext n
  induction n using Nat.strong_induction_on with
  | _ n ih =>
    by_cases hn : n < p + q
    · exact h n hn
    · -- both periods fit below `n`: go down by one of them on either side
      have hfn : f n = f (n - p) := by
        rw [← hf (n - p), Nat.sub_add_cancel (by omega)]
      have hgn : g n = g (n - q) := by
        rw [← hg (n - q), Nat.sub_add_cancel (by omega)]
      have hgp : g (n - p) = g (n - p - q) := by
        rw [← hg (n - p - q), Nat.sub_add_cancel (by omega)]
      have hfq : f (n - q) = f (n - q - p) := by
        rw [← hf (n - q - p), Nat.sub_add_cancel (by omega)]
      calc f n = f (n - p) := hfn
        _ = g (n - p) := ih (n - p) (by omega)
        _ = g (n - p - q) := hgp
        _ = f (n - q - p) := by rw [ih (n - q - p) (by omega), Nat.sub_right_comm]
        _ = f (n - q) := hfq.symm
        _ = g (n - q) := ih (n - q) (by omega)
        _ = g n := hgn.symm

/-- Two keys of any lengths whose streams agree so long have the same stream. -/
theorem keyStream_eq_of_agree {d : α} {key key' : List α} (hk : key ≠ []) (hk' : key' ≠ [])
    (h : ∀ i < key.length + key'.length, keyStream d key i = keyStream d key' i) :
    keyStream d key = keyStream d key' :=
  eq_of_agree (keyStream_periodic d key) (keyStream_periodic d key')
    (List.length_pos_iff.mpr hk) (List.length_pos_iff.mpr hk') h

end Lib.KeyStream
