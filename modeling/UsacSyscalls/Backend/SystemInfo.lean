import UsacSyscalls.Kernel
import UsacSyscalls.Lib.CString

/-!
# `get_system_info`

Reference model of `get_system_info` of `Api/Backend/api_syscalls.c`, which every handler of the
backend starts with: one system call into a zeroed buffer of 912 bytes, whose contents are then
taken as a C string.
-/

set_option autoImplicit false

namespace UsacSyscalls.Backend

open Lib.CString

/-- The size of the buffer of `get_system_info`. -/
def SYSTEM_INFO_SIZE : Nat := 912

/-- `get_system_info`: the string under `data`, or `none` when the call failed. -/
def getSystemInfo (reply : Reply) : Option Bytes :=
  let buffer := overwrite (List.replicate SYSTEM_INFO_SIZE 0) reply.delivered
  if reply.ret = 0 then some (cString buffer) else none

theorem getSystemInfo_failed {reply : Reply} (h : reply.ret ≠ 0) : getSystemInfo reply = none := by
  unfold getSystemInfo
  exact if_neg h

/-- **A text arrives** when it is delivered with its NUL, or is shorter than the buffer. -/
theorem getSystemInfo_eq {reply : Reply} {text : Bytes} (h : reply.ret = 0)
    (hnul : (0 : UInt8) ∉ text)
    (htext : (∃ rest, reply.delivered = text ++ 0 :: rest) ∨
      reply.delivered = text ∧ text.length < SYSTEM_INFO_SIZE) :
    getSystemInfo reply = some text := by
  have hholds : Holds (overwrite (List.replicate SYSTEM_INFO_SIZE 0) reply.delivered) text := by
    refine ⟨?_, hnul⟩
    rcases htext with ⟨rest, hd⟩ | ⟨hd, hlt⟩
    · rw [hd, overwrite, List.append_assoc, List.cons_append]
      exact ⟨_, rfl⟩
    · refine ⟨List.replicate (SYSTEM_INFO_SIZE - text.length - 1) 0, ?_⟩
      rw [hd, overwrite, List.drop_replicate, ← List.replicate_succ,
        show SYSTEM_INFO_SIZE - text.length - 1 + 1 = SYSTEM_INFO_SIZE - text.length by omega]
  unfold getSystemInfo
  rw [if_pos h, hholds.cString_eq]

end UsacSyscalls.Backend
