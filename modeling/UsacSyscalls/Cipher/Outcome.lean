import Mathlib.Data.Nat.Find
import UsacSyscalls.Lib.Tiling
import UsacSyscalls.Cipher.Program

/-!
# What the kernel's answers decide about a cipher call

How far a call gets, and what is in its two buffers when it gets there, is decided by the
kernel's answers and the files before the call alone; no thread takes part in it.  `Opened`,
`KeyLoaded`, `Loaded`, `Ready` and `WritesOut` are the successive stages, `key₀` and `data₀` the
buffers after the two reads, `cipherText` what is handed to `kernel_write` in the end.

`fragmentOf_eq` — the fragment bounds the source computes in `size_t` arithmetic are the tiles of
the file, without wraparound.
-/

set_option autoImplicit false

namespace UsacSyscalls.Cipher

open Lib.Tiling

section Threads

variable {Path : Type}

/-- The number of threads, once it is known to be positive. -/
def Call.threads (c : Call Path) : Nat := c.threadCount.toInt.toNat

/-- Thread `j` is the first one that cannot be started. -/
structure FirstFailure (env : Env) (c : Call Path) (j : Nat) : Prop where
  lt : (j : Int) < c.threadCount.toInt
  fails : env.kthreadRun j ≠ none
  first : ∀ i < j, env.kthreadRun i = none

theorem FirstFailure.unique {env : Env} {c : Call Path} {i j : Nat}
    (hi : FirstFailure env c i) (hj : FirstFailure env c j)  : i = j := by
  rcases Nat.lt_trichotomy i j with h | h | h
  · exact absurd (hj.first i h) hi.fails
  · exact h
  · exact absurd (hi.first j h) hj.fails

theorem toSizeT_threads {c : Call Path} (h : 0 ≤ c.threadCount.toInt) :
    toSizeT c.threadCount.toInt = c.threads := by
  have hlt := c.threadCount.toInt_lt
  have := toSizeT_of_bounds h (by omega)
  unfold Call.threads
  omega

end Threads

section Facts

variable {Path : Type} [DecidableEq Path] (env : Env) (c : Call Path) (fs₀ : FS Path)

/-! ## The stages of a call -/

/-- All three paths were copied from user space. -/
def Copied : Prop := ∀ f, env.strndupUser f = none

instance : Decidable (Copied env) :=
  decidable_of_iff (env.strndupUser .input = none ∧ env.strndupUser .output = none ∧
      env.strndupUser .key = none)
    ⟨fun h f => by cases f; exacts [h.1, h.2.1, h.2.2], fun h => ⟨h _, h _, h _⟩⟩

/-- The files once the output file has been opened. -/
def afterOpen : FS Path := env.openWrite fs₀ c.output

def keyLength₀ : Nat := env.iSizeRead .key (contents (afterOpen env c fs₀) c.key)

def keyRead₀ : Except Errno Bytes :=
  env.kernelRead .key (contents (afterOpen env c fs₀) c.key) (keyLength₀ env c fs₀)

/-- The key buffer after the key file has been read into it. -/
def key₀ : Bytes :=
  overwrite (env.fresh .encryptionKey (keyLength₀ env c fs₀)) (readBytes (keyRead₀ env c fs₀))

def fileSize₀ : Nat := env.iSizeRead .input (contents (afterOpen env c fs₀) c.input)

def dataRead₀ : Except Errno Bytes :=
  env.kernelRead .input (contents (afterOpen env c fs₀) c.input) (fileSize₀ env c fs₀)

/-- The data buffer after the input file has been read into it. -/
def data₀ : Bytes :=
  overwrite (env.fresh .fileBuffer (fileSize₀ env c fs₀)) (readBytes (dataRead₀ env c fs₀))

structure Opened : Prop where
  copied : Copied env
  input : env.openRead fs₀ .input c.input = none
  output : env.filpOpen .output = none
  key : env.openRead (afterOpen env c fs₀) .key c.key = none

structure KeyLoaded : Prop extends Opened env c fs₀ where
  keySize : keyLength₀ env c fs₀ ≠ 0
  keyMemory : env.kmalloc .encryptionKey (keyLength₀ env c fs₀) = true
  keyRead : 0 ≤ toInt (readCount (keyRead₀ env c fs₀))

structure Loaded : Prop extends KeyLoaded env c fs₀ where
  dataSize : fileSize₀ env c fs₀ ≠ 0
  dataMemory : env.kmalloc .fileBuffer (fileSize₀ env c fs₀) = true
  dataRead : 0 ≤ toInt (readCount (dataRead₀ env c fs₀))

/-- The call gets as far as cutting the file into fragments. -/
structure Ready : Prop extends Loaded env c fs₀ where
  lists : ∀ b, env.listOk c.threadCount b = true

/-- The call gets as far as `kernel_write`. -/
structure WritesOut : Prop extends Ready env c fs₀ where
  pos : 0 < c.threadCount.toInt
  started : ∀ j : Nat, (j : Int) < c.threadCount.toInt → env.kthreadRun j = none

/-- The key byte a position is combined with. -/
def keyed (i : Nat) (b : UInt8) : UInt8 :=
  b ^^^ (key₀ env c fs₀).getD (i % keyLength₀ env c fs₀) 0

/-- The bytes a call that gets that far hands to `kernel_write`. -/
def cipherText : Bytes := (data₀ env c fs₀).mapIdx (keyed env c fs₀)

/-- `fragment_list[j]` without wraparound. -/
def fragment₀ (j : Nat) : DataFragment where
  dataSize := fileSize₀ env c fs₀
  keyLength := keyLength₀ env c fs₀
  startIdx := tileLo (fileSize₀ env c fs₀) c.threads j
  endIdx := tileHi (fileSize₀ env c fs₀) c.threads j

variable {env c fs₀}

theorem key₀_length : (key₀ env c fs₀).length = keyLength₀ env c fs₀ := by
  unfold key₀
  rw [overwrite_length (by rw [Env.fresh_length]; exact env.readBytes_le _ _ _), Env.fresh_length]

theorem data₀_length : (data₀ env c fs₀).length = fileSize₀ env c fs₀ := by
  unfold data₀
  rw [overwrite_length (by rw [Env.fresh_length]; exact env.readBytes_le _ _ _), Env.fresh_length]

theorem cipherText_length : (cipherText env c fs₀).length = fileSize₀ env c fs₀ := by
  rw [cipherText, List.length_mapIdx, data₀_length]

/-- A negative thread count makes the list allocations ask for more than `kmalloc` serves. -/
theorem Ready.nonneg (h : Ready env c fs₀) : 0 ≤ c.threadCount.toInt := by
  have hsize := Env.size_le_of_kmalloc (h.lists .threadList)
  have hlo := c.threadCount.le_toInt
  simp only [listSize, SIZEOF_POINTER, toSizeT, KMALLOC_MAX_SIZE] at hsize
  omega

theorem Loaded.fileSize_le (h : Loaded env c fs₀) : fileSize₀ env c fs₀ ≤ KMALLOC_MAX_SIZE :=
  Env.size_le_of_kmalloc h.dataMemory

theorem WritesOut.no_failure (h : WritesOut env c fs₀) {j : Nat} : ¬ FirstFailure env c j :=
  fun hf => hf.fails (h.started j hf.lt)

/-- The fragments computed in `size_t` arithmetic are the tiles of the file. -/
theorem fragmentOf_eq {s : State Path} {j : Nat} (hsize : s.fileSize = fileSize₀ env c fs₀)
    (hkey : s.keyLength = keyLength₀ env c fs₀)
    (hfrag : s.fragmentSize = fileSize₀ env c fs₀ / c.threads)
    (hextra : s.extraBytes = fileSize₀ env c fs₀ % c.threads)
    (hle : fileSize₀ env c fs₀ ≤ KMALLOC_MAX_SIZE) (hj : (j : Int) < c.threadCount.toInt) :
    fragmentOf c s j = fragment₀ env c fs₀ j := by
  have hjt : j < c.threads := by unfold Call.threads; omega
  have hlast : (j : Int) = c.threadCount.toInt - 1 ↔ j + 1 = c.threads := by
    unfold Call.threads; omega
  have hmax : KMALLOC_MAX_SIZE < 2 ^ 64 := by decide
  have hlo : tileLo (fileSize₀ env c fs₀) c.threads j ≤ fileSize₀ env c fs₀ :=
    (tileLo_le_tileHi _ _ j).trans (tileHi_le hjt)
  have hhi : tileHi (fileSize₀ env c fs₀) c.threads j ≤ fileSize₀ env c fs₀ := tileHi_le hjt
  unfold fragmentOf fragment₀
  simp only [tileLo, tileHi, hlast, hsize, hkey, hfrag, hextra] at hlo hhi ⊢
  congr 1
  · exact Nat.mod_eq_of_lt (by omega)
  · split
    · rename_i h; rw [if_pos h] at hhi; exact Nat.mod_eq_of_lt (by omega)
    · rename_i h; rw [if_neg h] at hhi; exact Nat.mod_eq_of_lt (by omega)

end Facts

end UsacSyscalls.Cipher
