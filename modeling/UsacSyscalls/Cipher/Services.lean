import Mathlib.Logic.Function.Basic
import UsacSyscalls.Kernel

/-!
# What the cipher calls ask of the kernel

`my_encrypt` and `my_decrypt` copy three paths, open three files, allocate five blocks, read two
files, start threads and write one file.  `Env` holds the answers of the kernel to these requests
during one call; nothing is assumed of them beyond what the interfaces promise, which the last
fields of the structure state.
-/

set_option autoImplicit false

namespace UsacSyscalls.Cipher

/-- The files of a call. -/
inductive Operand where
  | input
  | output
  | key
  deriving DecidableEq, Repr

/-- The blocks a call takes from `kmalloc`. -/
inductive Block where
  | encryptionKey
  | fileBuffer
  | threadList
  | taskList
  | fragmentList
  deriving DecidableEq, Repr

/-- File contents by path; a path stands for the file it resolves to. -/
abbrev FS (Path : Type) := Path → Option Bytes

/-- The kernel's answers during one call.  `some e` is an error pointer. -/
structure Env where
  strndupUser : Operand → Option Errno
  /-- An error other than a missing file. -/
  filpOpen : Operand → Option Errno
  /-- The size the inode reports for a file with these contents. -/
  iSizeRead : Operand → Bytes → Nat
  kmalloc : Block → Nat → Bool
  /-- What an allocated block contains before it is written to. -/
  heap : Block → Nat → UInt8
  /-- The bytes transferred when `count` bytes of a file with these contents are asked for. -/
  kernelRead : Operand → Bytes → Nat → Except Errno Bytes
  kthreadRun : Nat → Option Errno
  /-- The number of bytes of the buffer that reach the file. -/
  kernelWrite : Bytes → Except Errno Nat
  kmalloc_zero : ∀ b, kmalloc b 0 = true
  kmalloc_max : ∀ b n, KMALLOC_MAX_SIZE < n → kmalloc b n = false
  kernelRead_le : ∀ f bs n r, kernelRead f bs n = .ok r → r.length ≤ n
  kernelWrite_le : ∀ bs n, kernelWrite bs = .ok n → n ≤ bs.length

/-- A block straight from `kmalloc`. -/
def Env.fresh (env : Env) (b : Block) (n : Nat) : Bytes := (List.range n).map (env.heap b)

@[simp] theorem Env.fresh_length (env : Env) (b : Block) (n : Nat) :
    (env.fresh b n).length = n := by
  simp [Env.fresh]

theorem Env.size_le_of_kmalloc {env : Env} {b : Block} {n : Nat} (h : env.kmalloc b n = true) :
    n ≤ KMALLOC_MAX_SIZE := by
  by_cases hn : n ≤ KMALLOC_MAX_SIZE
  · exact hn
  · have := env.kmalloc_max b n (by omega)
    rw [h] at this
    cases this

/-- A kernel that refuses nothing it can serve and transfers every byte. -/
def Env.ideal : Env where
  strndupUser _ := none
  filpOpen _ := none
  iSizeRead _ bs := bs.length
  kmalloc _ n := n ≤ KMALLOC_MAX_SIZE
  heap _ _ := 0
  kernelRead _ bs n := .ok (bs.take n)
  kthreadRun _ := none
  kernelWrite bs := .ok bs.length
  kmalloc_zero _ := rfl
  kmalloc_max _ n h := by simpa using h
  kernelRead_le _ bs n r h := by
    cases h
    simp only [List.length_take]
    omega
  kernelWrite_le bs n h := by
    cases h
    exact Nat.le_refl _

/-- The value `kernel_read` or `kernel_write` returns for a transfer. -/
def count : Except Errno Nat → Int
  | .error e => e.ret
  | .ok n => n

def readCount : Except Errno Bytes → Int
  | .error e => e.ret
  | .ok bs => bs.length

/-- The bytes a read stored in the buffer. -/
def readBytes : Except Errno Bytes → Bytes
  | .error _ => []
  | .ok bs => bs

theorem Env.readBytes_le (env : Env) (f : Operand) (bs : Bytes) (n : Nat) :
    (readBytes (env.kernelRead f bs n)).length ≤ n := by
  cases h : env.kernelRead f bs n with
  | error e => simp [readBytes]
  | ok r => exact env.kernelRead_le f bs n r h

/-- The contents of a file; an open file exists, so the default is not reached. -/
def contents {Path : Type} (fs : FS Path) (p : Path) : Bytes := (fs p).getD []

section Files

variable {Path : Type} [DecidableEq Path]

/-- `filp_open(path, O_RDONLY, 0)`. -/
def Env.openRead (env : Env) (fs : FS Path) (f : Operand) (p : Path) : Option Errno :=
  match env.filpOpen f with
  | some e => some e
  | none => if (fs p).isNone then some ENOENT else none

/-- The files after `filp_open(path, O_WRONLY | O_CREAT | O_TRUNC, 0644)`. -/
def Env.openWrite (env : Env) (fs : FS Path) (p : Path) : FS Path :=
  if (env.filpOpen .output).isNone then Function.update fs p (some []) else fs

/-- The files after `kernel_write` of `buf` at offset 0. -/
def Env.written (env : Env) (fs : FS Path) (p : Path) (buf : Bytes) : FS Path :=
  match env.kernelWrite buf with
  | .error _ => fs
  | .ok n => Function.update fs p (some (overwrite (contents fs p) (buf.take n)))

end Files

end UsacSyscalls.Cipher
