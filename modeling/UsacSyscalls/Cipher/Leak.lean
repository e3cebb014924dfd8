import UsacSyscalls.Cipher.Runs

/-!
# What of the heap a cipher call writes out

The sizes of the two buffers come from the inodes, their contents from two reads that may bring
fewer bytes; only a negative count is treated as an error.  What a read did not fill still holds
what the heap held before.

* `HeapIndependent` — two runs whose blocks had different prior contents hand the same bytes to
  `kernel_write`.
* `Covering` — the reads filled every byte of the two buffers that the cipher uses.
* `heapIndependent_iff` — the first holds exactly when a call that gets to `kernel_write` has the
  second.
-/

set_option autoImplicit false

namespace UsacSyscalls.Cipher

open Lib.Run

/-- The same kernel with other prior contents in its heap. -/
def Env.withHeap (env : Env) (heap : Block → Nat → UInt8) : Env := { env with heap := heap }

section Leak

variable {Path : Type} [DecidableEq Path]

/-- Runs that differ only in the prior contents of the allocated blocks, and in how their threads
    interleave, hand the same bytes to `kernel_write`. -/
def HeapIndependent (op : Mode) (env : Env) (c : Call Path) (fs₀ : FS Path) : Prop :=
  ∀ heap₁ heap₂ s₁ s₂,
    Reach (step op (env.withHeap heap₁) c) (State.init fs₀) s₁ → s₁.pc = .done →
    Reach (step op (env.withHeap heap₂) c) (State.init fs₀) s₂ → s₂.pc = .done →
    s₁.handed = s₂.handed

/-- The reads filled the data buffer and every key byte that meets a data byte. -/
structure Covering (env : Env) (c : Call Path) (fs₀ : FS Path) : Prop where
  data : fileSize₀ env c fs₀ ≤ (readBytes (dataRead₀ env c fs₀)).length
  key : min (keyLength₀ env c fs₀) (fileSize₀ env c fs₀) ≤ (readBytes (keyRead₀ env c fs₀)).length

variable {env : Env} {c : Call Path} {fs₀ : FS Path}

theorem WritesOut.withHeap (h : WritesOut env c fs₀) (heap : Block → Nat → UInt8) :
    WritesOut (env.withHeap heap) c fs₀ where
  copied := h.copied
  input := h.input
  output := h.output
  key := h.key
  keySize := h.keySize
  keyMemory := h.keyMemory
  keyRead := h.keyRead
  dataSize := h.dataSize
  dataMemory := h.dataMemory
  dataRead := h.dataRead
  lists b := by
    have := h.lists b
    cases b <;> exact this
  pos := h.pos
  started := h.started

theorem writesOut_withHeap (heap : Block → Nat → UInt8) :
    WritesOut (env.withHeap heap) c fs₀ ↔ WritesOut env c fs₀ :=
  ⟨fun h => h.withHeap env.heap, fun h => h.withHeap heap⟩

/-- A call that returns has handed over its cipher text, or nothing. -/
theorem handed_of_done {op : Mode} {s : State Path}
    (hr : Reach (step op env c) (State.init fs₀) s) (hpc : s.pc = .done) :
    (WritesOut env c fs₀ ∧ s.handed = some (cipherText env c fs₀)) ∨
      (¬ WritesOut env c fs₀ ∧ s.handed = none) := by
  have hinv := reach_inv hr
  unfold Inv at hinv
  simp only [hpc] at hinv
  exact Settled.handed_cases hinv

theorem WritesOut.exists_done (h : WritesOut env c fs₀) (op : Mode) :
    ∃ s, Reach (step op env c) (State.init fs₀) s ∧ s.pc = .done ∧
      s.handed = some (cipherText env c fs₀) := by
  obtain ⟨s, hr, -, hpc, hset⟩ :=
    (call_returns op env c fs₀ fun _ => by have := h.pos; omega).exists_final
  refine ⟨s, hr, hpc, ?_⟩
  rcases hset.handed_cases with ⟨_, hh⟩ | ⟨hn, _⟩
  · exact hh
  · exact absurd h hn

/-- The property in terms of the cipher text alone. -/
theorem heapIndependent_iff_cipherText (op : Mode) : HeapIndependent op env c fs₀ ↔
    (WritesOut env c fs₀ → ∀ heap₁ heap₂,
      cipherText (env.withHeap heap₁) c fs₀ = cipherText (env.withHeap heap₂) c fs₀) := by
  constructor
  · intro h hw heap₁ heap₂
    obtain ⟨s₁, hr₁, hpc₁, hh₁⟩ := (hw.withHeap heap₁).exists_done op
    obtain ⟨s₂, hr₂, hpc₂, hh₂⟩ := (hw.withHeap heap₂).exists_done op
    have := h heap₁ heap₂ s₁ s₂ hr₁ hpc₁ hr₂ hpc₂
    rw [hh₁, hh₂] at this
    exact Option.some.inj this
  · intro h heap₁ heap₂ s₁ s₂ hr₁ hpc₁ hr₂ hpc₂
    rcases handed_of_done hr₁ hpc₁ with ⟨hw₁, hh₁⟩ | ⟨hn₁, hh₁⟩ <;>
      rcases handed_of_done hr₂ hpc₂ with ⟨hw₂, hh₂⟩ | ⟨hn₂, hh₂⟩ <;>
      rw [writesOut_withHeap] at * <;> rw [hh₁, hh₂]
    · rw [h hw₁ heap₁ heap₂]
    · exact absurd hw₁ hn₂
    · exact absurd hw₂ hn₁

/-! ## One byte of the cipher text -/

/-- A byte of a buffer that a read filled in part. -/
def bufferByte (read : Bytes) (heap : Nat → UInt8) (i : Nat) : UInt8 := read.getD i (heap i)

theorem getElem?_overwrite_fresh {b : Block} {n i : Nat} {read : Bytes} (hi : i < n) :
    (overwrite (env.fresh b n) read)[i]? = some (bufferByte read (env.heap b) i) := by
  unfold overwrite bufferByte
  rw [List.getElem?_append, List.getD_eq_getElem?_getD]
  split
  · rename_i hlt
    rw [List.getElem?_eq_getElem hlt, Option.getD_some]
  · rename_i hge
    have hsum : read.length + (i - read.length) = i := by omega
    rw [List.getElem?_eq_none (Nat.not_lt.mp hge), Option.getD_none, List.getElem?_drop, hsum,
      Env.fresh, List.getElem?_map, List.getElem?_range hi]
    rfl

/-- **One byte of the cipher text**: a byte of the data buffer with a byte of the key buffer. -/
theorem getElem?_cipherText {i : Nat} (hk : keyLength₀ env c fs₀ ≠ 0)
    (hi : i < fileSize₀ env c fs₀) :
    (cipherText env c fs₀)[i]? =
      some (bufferByte (readBytes (dataRead₀ env c fs₀)) (env.heap .fileBuffer) i ^^^
        bufferByte (readBytes (keyRead₀ env c fs₀)) (env.heap .encryptionKey)
          (i % keyLength₀ env c fs₀)) := by
  have hmod : i % keyLength₀ env c fs₀ < keyLength₀ env c fs₀ := Nat.mod_lt _ (by omega)
  rw [cipherText, List.getElem?_mapIdx, data₀, getElem?_overwrite_fresh hi, Option.map_some, keyed,
    List.getD_eq_getElem?_getD, key₀, getElem?_overwrite_fresh hmod, Option.getD_some]

theorem getElem?_cipherText_withHeap {i : Nat} (hw : WritesOut env c fs₀)
    (hi : i < fileSize₀ env c fs₀) (heap : Block → Nat → UInt8) :
    (cipherText (env.withHeap heap) c fs₀)[i]? =
      some (bufferByte (readBytes (dataRead₀ env c fs₀)) (heap .fileBuffer) i ^^^
        bufferByte (readBytes (keyRead₀ env c fs₀)) (heap .encryptionKey)
          (i % keyLength₀ env c fs₀)) :=
  getElem?_cipherText (hw.withHeap heap).keySize hi

theorem bufferByte_read {read : Bytes} {i : Nat} (h : i < read.length) (heap₁ heap₂ : Nat → UInt8) :
    bufferByte read heap₁ i = bufferByte read heap₂ i := by
  unfold bufferByte
  rw [List.getD_eq_getElem?_getD, List.getD_eq_getElem?_getD, List.getElem?_eq_getElem h]
  rfl

theorem bufferByte_heap {read : Bytes} {i : Nat} (h : read.length ≤ i) (heap : Nat → UInt8) :
    bufferByte read heap i = heap i := by
  unfold bufferByte
  rw [List.getD_eq_getElem?_getD, List.getElem?_eq_none h]
  rfl

/-! ## The cipher text and the heap -/

/-- With both reads covering what is used, no byte of the cipher text comes from the heap. -/
theorem cipherText_eq_of_covering (hw : WritesOut env c fs₀) (h : Covering env c fs₀)
    (heap₁ heap₂ : Block → Nat → UInt8) :
    cipherText (env.withHeap heap₁) c fs₀ = cipherText (env.withHeap heap₂) c fs₀ := by
  apply List.ext_getElem?
  intro i
  by_cases hi : i < fileSize₀ env c fs₀
  · have hdata := h.data
    have hkey := h.key
    have hne := hw.keySize
    have hmod : i % keyLength₀ env c fs₀ < keyLength₀ env c fs₀ := Nat.mod_lt _ (by omega)
    have hle : i % keyLength₀ env c fs₀ ≤ i := Nat.mod_le _ _
    rw [getElem?_cipherText_withHeap hw hi, getElem?_cipherText_withHeap hw hi]
    congr 2
    · exact bufferByte_read (by omega) _ _
    · exact bufferByte_read (by omega) _ _
  · rw [List.getElem?_eq_none (by rw [cipherText_length]; exact Nat.not_lt.mp hi),
      List.getElem?_eq_none (by rw [cipherText_length]; exact Nat.not_lt.mp hi)]

/-- A heap of zeroes, with ones in one kind of block. -/
def markedHeap (marked : Block) : Block → Nat → UInt8 := fun b _ => if b = marked then 1 else 0

theorem xor_right_cancel {a b k : UInt8} (h : a ^^^ k = b ^^^ k) : a = b := by
  have := congrArg (· ^^^ k) h
  simpa [UInt8.xor_assoc] using this

theorem xor_left_cancel {a b k : UInt8} (h : k ^^^ a = k ^^^ b) : a = b := by
  rw [UInt8.xor_comm k a, UInt8.xor_comm k b] at h
  exact xor_right_cancel h

/-- A data byte that was not read comes from the heap. -/
theorem covering_data (hw : WritesOut env c fs₀)
    (h : ∀ heap₁ heap₂,
      cipherText (env.withHeap heap₁) c fs₀ = cipherText (env.withHeap heap₂) c fs₀) :
    fileSize₀ env c fs₀ ≤ (readBytes (dataRead₀ env c fs₀)).length := by
  by_contra hlt
  have hbyte := congrArg (·[(readBytes (dataRead₀ env c fs₀)).length]?)
    (h (markedHeap .fileBuffer) (markedHeap .threadList))
  simp only [getElem?_cipherText_withHeap hw (Nat.not_le.mp hlt), Option.some.injEq,
    bufferByte_heap (Nat.le_refl _)] at hbyte
  exact absurd (xor_right_cancel hbyte) (by simp [markedHeap])

/-- A key byte that is used and was not read comes from the heap. -/
theorem covering_key (hw : WritesOut env c fs₀)
    (h : ∀ heap₁ heap₂,
      cipherText (env.withHeap heap₁) c fs₀ = cipherText (env.withHeap heap₂) c fs₀) :
    min (keyLength₀ env c fs₀) (fileSize₀ env c fs₀) ≤
      (readBytes (keyRead₀ env c fs₀)).length := by
  by_contra hlt
  have hsize : (readBytes (keyRead₀ env c fs₀)).length < fileSize₀ env c fs₀ := by omega
  have hmod : (readBytes (keyRead₀ env c fs₀)).length % keyLength₀ env c fs₀ =
      (readBytes (keyRead₀ env c fs₀)).length := Nat.mod_eq_of_lt (by omega)
  have hbyte := congrArg (·[(readBytes (keyRead₀ env c fs₀)).length]?)
    (h (markedHeap .encryptionKey) (markedHeap .threadList))
  simp only [getElem?_cipherText_withHeap hw hsize, Option.some.injEq, hmod,
    bufferByte_heap (Nat.le_refl _)] at hbyte
  rw [bufferByte_read (lt_of_lt_of_le hsize (covering_data hw h)) _
    (markedHeap .threadList .fileBuffer)] at hbyte
  exact absurd (xor_left_cancel hbyte) (by simp [markedHeap])

/-- **No kernel heap in the output file**: the bytes handed to `kernel_write` do not depend on
    what the heap held iff, in a call that gets there, the reads covered what the cipher uses. -/
theorem heapIndependent_iff (op : Mode) (env : Env) (c : Call Path) (fs₀ : FS Path) :
    HeapIndependent op env c fs₀ ↔ (WritesOut env c fs₀ → Covering env c fs₀) := by
  rw [heapIndependent_iff_cipherText]
  constructor
  · intro h hw
    exact ⟨covering_data hw (h hw), covering_key hw (h hw)⟩
  · intro h hw
    exact cipherText_eq_of_covering hw (h hw)

/-- A kernel whose reads bring one byte less than they are asked for. -/
def Env.shortReads : Env :=
  { Env.ideal with
    kernelRead := fun _ bs n => .ok (bs.take (n - 1))
    kernelRead_le := fun _ bs n r h => by cases h; simp only [List.length_take]; omega }

/-- The last byte of the data was not read, and is written out all the same. -/
theorem not_heapIndependent_short_read :
    ¬ HeapIndependent .encrypt Env.shortReads (⟨0, 1, 2, 1⟩ : Call Nat)
      (fun p => if p = 0 then some [10, 20, 30] else if p = 2 then some [7, 9] else none) := by
  rw [heapIndependent_iff_cipherText]
  intro h
  have hlists : ∀ b, Env.shortReads.listOk 1 b = true := fun b => by cases b <;> decide
  have hw : WritesOut Env.shortReads (⟨0, 1, 2, 1⟩ : Call Nat)
      (fun p => if p = 0 then some [10, 20, 30] else if p = 2 then some [7, 9] else none) :=
    ⟨⟨⟨⟨⟨by decide, by decide, by decide, by decide⟩, by decide, by decide, by decide⟩, by decide,
      by decide, by decide⟩, hlists⟩, by decide, fun _ _ => rfl⟩
  exact absurd (h hw (markedHeap .fileBuffer) (markedHeap .threadList)) (by decide)

end Leak

end UsacSyscalls.Cipher
