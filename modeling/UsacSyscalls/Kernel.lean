import Mathlib.Algebra.Ring.Int.Defs
import Mathlib.Algebra.Ring.Nat

/-!
# Kernel vocabulary

Machine integers, error codes and byte buffers as the modelled system calls use them (x86-64:
`int` has 32 bits, `unsigned long` and `size_t` have 64).
-/

set_option autoImplicit false

namespace UsacSyscalls

abbrev Bytes := List UInt8

/-- A kernel error number; it is returned as its negation and encoded in an error pointer. -/
structure Errno where
  code : Nat
  pos : 0 < code
  le : code ≤ 4095
  deriving DecidableEq, Repr

/-- `-e`, also `PTR_ERR` of the error pointer for `e`. -/
def Errno.ret (e : Errno) : Int := -(e.code : Int)

def ENOENT : Errno := ⟨2, by decide, by decide⟩
def ENOMEM : Errno := ⟨12, by decide, by decide⟩
def EFAULT : Errno := ⟨14, by decide, by decide⟩
def EINVAL : Errno := ⟨22, by decide, by decide⟩

theorem Errno.ret_neg (e : Errno) : e.ret < 0 := by
  have := e.pos
  simp only [Errno.ret]; omega

theorem Errno.ret_ge (e : Errno) : -4095 ≤ e.ret := by
  have := e.le
  simp only [Errno.ret]; omega

/-- Assignment to an `int`: the low 32 bits, read as a signed number. -/
def toInt (x : Int) : Int := x.bmod (2 ^ 32)

/-- Conversion to `size_t`: reduction modulo `2 ^ 64`. -/
def toSizeT (x : Int) : Nat := (x % 2 ^ 64).toNat

theorem toInt_of_bounds {x : Int} (h1 : -2 ^ 31 ≤ x) (h2 : x < 2 ^ 31) : toInt x = x := by
  unfold toInt
  exact Int.bmod_eq_of_le (by omega) (by omega)

theorem toInt_errno (e : Errno) : toInt e.ret = e.ret := by
  have := e.pos
  have := e.le
  refine toInt_of_bounds ?_ ?_ <;> simp only [Errno.ret] <;> omega

theorem toInt_natCast {n : Nat} (h : n < 2 ^ 31) : toInt n = n :=
  toInt_of_bounds (by omega) (by omega)

theorem toSizeT_of_bounds {x : Int} (h1 : 0 ≤ x) (h2 : x < 2 ^ 64) : (toSizeT x : Int) = x := by
  unfold toSizeT
  rw [Int.emod_eq_of_lt h1 h2]
  omega

/-- Replace the bytes at the start of `buf` by `bs`. -/
def overwrite (buf bs : Bytes) : Bytes := bs ++ buf.drop bs.length

theorem overwrite_length {buf bs : Bytes} (h : bs.length ≤ buf.length) :
    (overwrite buf bs).length = buf.length := by
  simp [overwrite]; omega

theorem overwrite_all {buf bs : Bytes} (h : bs.length = buf.length) : overwrite buf bs = bs := by
  simp [overwrite, h]

/-- Largest request `kmalloc` serves (4 MiB). -/
def KMALLOC_MAX_SIZE : Nat := 2 ^ 22

/-! ## Copying to user space -/

/-- The return value of a call and the bytes it delivered to user space. -/
structure Reply where
  ret : Int
  delivered : Bytes
  deriving DecidableEq, Repr

/-- `copy_to_user` into memory that accepts `accepts` bytes before it faults. -/
def copyToUser (accepts : Nat) (bs : Bytes) : Reply :=
  if accepts < bs.length then ⟨EFAULT.ret, bs.take accepts⟩ else ⟨0, bs⟩

theorem copyToUser_delivered (accepts : Nat) (bs : Bytes) :
    (copyToUser accepts bs).delivered = bs.take accepts := by
  unfold copyToUser
  split
  · rfl
  · rename_i h; exact (List.take_of_length_le (Nat.not_lt.mp h)).symm

theorem copyToUser_all {accepts : Nat} {bs : Bytes} (h : bs.length ≤ accepts) :
    copyToUser accepts bs = ⟨0, bs⟩ := by
  unfold copyToUser
  rw [if_neg (Nat.not_lt.mpr h)]

theorem copyToUser_fault {accepts : Nat} {bs : Bytes} (h : accepts < bs.length) :
    copyToUser accepts bs = ⟨EFAULT.ret, bs.take accepts⟩ := by
  unfold copyToUser
  rw [if_pos h]

/-- A copy that succeeds has delivered everything. -/
theorem copyToUser_ret_zero {accepts : Nat} {bs : Bytes} (h : (copyToUser accepts bs).ret = 0) :
    bs.length ≤ accepts := by
  by_contra hgt
  rw [copyToUser_fault (Nat.not_le.mp hgt)] at h
  exact absurd h (Int.ne_of_lt EFAULT.ret_neg)

end UsacSyscalls
