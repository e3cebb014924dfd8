import UsacSyscalls.Cipher.Runs

/-!
# The two calls undo one another

* `xorWith` — what the calls are for: combining the data with the key, repeated as often as
  needed.  `xorWith_xorWith` says that doing it twice changes nothing.
* `Served.cipherText_eq` — a call that is served in full computes `xorWith`, for every thread count.
* `call_round_trip` — over every interleaving of both calls, the second restores the data.
-/

set_option autoImplicit false

namespace UsacSyscalls.Cipher

open Lib.Run

/-! ## The cipher -/

/-- Every byte of the data combined with the key byte at its position modulo the key length. -/
def xorWith (key data : Bytes) : Bytes :=
  data.mapIdx fun i b => b ^^^ key.getD (i % key.length) 0

@[simp] theorem xorWith_length (key data : Bytes) : (xorWith key data).length = data.length := by
  simp [xorWith]

/-- **Combining twice with the same key changes nothing.** -/
theorem xorWith_xorWith (key data : Bytes) : xorWith key (xorWith key data) = data := by
  apply List.ext_getElem?
  intro i
  simp only [xorWith, List.getElem?_mapIdx, Option.map_map]
  cases data[i]? with
  | none => rfl
  | some b =>
    simp only [Option.map_some, Option.some.injEq]
    show b ^^^ key.getD (i % key.length) 0 ^^^ key.getD (i % key.length) 0 = b
    rw [UInt8.xor_assoc, UInt8.xor_self, UInt8.xor_zero]

example : xorWith [1, 2] [5, 6, 7] = [4, 4, 6] := by decide

section Calls

variable {Path : Type} [DecidableEq Path]

/-- The three paths name different files. -/
structure Call.Distinct (c : Call Path) : Prop where
  input_output : c.input ≠ c.output
  key_output : c.key ≠ c.output
  input_key : c.input ≠ c.key

/-- The kernel serves every request of a call on `dataSize` bytes under a key of `keySize` bytes. -/
structure Undisturbed (env : Env) (c : Call Path) (dataSize keySize : Nat) : Prop where
  copied : Copied env
  opens : ∀ f, env.filpOpen f = none
  size : ∀ f bs, env.iSizeRead f bs = bs.length
  keyMemory : env.kmalloc .encryptionKey keySize = true
  dataMemory : env.kmalloc .fileBuffer dataSize = true
  lists : ∀ b, env.listOk c.threadCount b = true
  reads : ∀ f bs, env.kernelRead f bs bs.length = .ok bs
  started : ∀ j : Nat, (j : Int) < c.threadCount.toInt → env.kthreadRun j = none
  writes : ∀ bs, env.kernelWrite bs = .ok bs.length

variable {env : Env} {c : Call Path} {fs : FS Path} {D K : Bytes}

/-- What a call hands to `kernel_write` is the cipher of its two buffers. -/
theorem cipherText_eq_xorWith : cipherText env c fs = xorWith (key₀ env c fs) (data₀ env c fs) := by
  rw [cipherText, xorWith, key₀_length]
  rfl

/-! ## One call served in full -/

theorem Undisturbed.afterOpen_eq {dataSize keySize : Nat}
    (hu : Undisturbed env c dataSize keySize) :
    afterOpen env c fs = Function.update fs c.output (some []) := by
  simp [afterOpen, Env.openWrite, hu.opens]

/-- A call on the data `D` under the key `K`, undisturbed and on distinct files. -/
structure Served (env : Env) (c : Call Path) (fs : FS Path) (D K : Bytes) : Prop
    extends Undisturbed env c D.length K.length where
  distinct : c.Distinct
  input : fs c.input = some D
  key : fs c.key = some K

theorem Served.contents_key (h : Served env c fs D K) :
    contents (afterOpen env c fs) c.key = K := by
  rw [h.afterOpen_eq, contents, Function.update_of_ne h.distinct.key_output, h.key]
  rfl

theorem Served.contents_input (h : Served env c fs D K) :
    contents (afterOpen env c fs) c.input = D := by
  rw [h.afterOpen_eq, contents, Function.update_of_ne h.distinct.input_output, h.input]
  rfl

theorem Served.keyLength₀_eq (h : Served env c fs D K) : keyLength₀ env c fs = K.length := by
  rw [keyLength₀, h.contents_key, h.size]

theorem Served.keyRead₀_eq (h : Served env c fs D K) : keyRead₀ env c fs = .ok K := by
  rw [keyRead₀, h.keyLength₀_eq, h.contents_key, h.reads]

theorem Served.key₀_eq (h : Served env c fs D K) : key₀ env c fs = K := by
  rw [key₀, h.keyRead₀_eq, h.keyLength₀_eq]
  exact overwrite_all (by simp [readBytes])

theorem Served.fileSize₀_eq (h : Served env c fs D K) : fileSize₀ env c fs = D.length := by
  rw [fileSize₀, h.contents_input, h.size]

theorem Served.dataRead₀_eq (h : Served env c fs D K) : dataRead₀ env c fs = .ok D := by
  rw [dataRead₀, h.fileSize₀_eq, h.contents_input, h.reads]

theorem Served.data₀_eq (h : Served env c fs D K) : data₀ env c fs = D := by
  rw [data₀, h.dataRead₀_eq, h.fileSize₀_eq]
  exact overwrite_all (by simp [readBytes])

/-- **A call that is served in full computes the cipher**, into however many fragments it cuts
    the data. -/
theorem Served.cipherText_eq (h : Served env c fs D K) : cipherText env c fs = xorWith K D := by
  rw [cipherText_eq_xorWith, h.data₀_eq, h.key₀_eq]

theorem Served.writesOut (h : Served env c fs D K) (hD : D ≠ []) (hK : K ≠ [])
    (hpos : 0 < c.threadCount.toInt) : WritesOut env c fs := by
  have hkeyOpen : env.openRead (afterOpen env c fs) .key c.key = none := by
    simp [Env.openRead, h.opens, h.afterOpen_eq, Function.update_of_ne h.distinct.key_output, h.key]
  have hinputOpen : env.openRead fs .input c.input = none := by
    simp [Env.openRead, h.opens, h.input]
  have hopened : Opened env c fs := ⟨h.copied, hinputOpen, h.opens _, hkeyOpen⟩
  have hsmall : ∀ {b n}, env.kmalloc b n = true → 0 ≤ toInt (n : Int) := by
    intro b n hb
    have hn := Env.size_le_of_kmalloc hb
    rw [toInt_natCast (by unfold KMALLOC_MAX_SIZE at hn; omega)]
    omega
  have hkeyed : KeyLoaded env c fs := by
    refine ⟨hopened, ?_, ?_, ?_⟩
    · rw [h.keyLength₀_eq]; simpa using hK
    · rw [h.keyLength₀_eq]; exact h.keyMemory
    · rw [h.keyRead₀_eq]; exact hsmall h.keyMemory
  have hloaded : Loaded env c fs := by
    refine ⟨hkeyed, ?_, ?_, ?_⟩
    · rw [h.fileSize₀_eq]; simpa using hD
    · rw [h.fileSize₀_eq]; exact h.dataMemory
    · rw [h.dataRead₀_eq]; exact hsmall h.dataMemory
  exact ⟨⟨hloaded, h.lists⟩, hpos, h.started⟩

/-- **One call**: it returns the size of the data and the output file holds the cipher text. -/
theorem Served.returns (h : Served env c fs D K) (op : Mode) (hD : D ≠ []) (hK : K ≠ [])
    (hpos : 0 < c.threadCount.toInt) :
    Returns op env c fs (fun r fs' =>
      r = D.length ∧ fs' = Function.update fs c.output (some (xorWith K D))) := by
  have hw := h.writesOut hD hK hpos
  have hsize : D.length ≤ KMALLOC_MAX_SIZE := Env.size_le_of_kmalloc h.dataMemory
  refine (call_returns op env c fs (fun _ => by omega)).mono fun s ⟨hpc, hset⟩ => ⟨hpc, ?_⟩
  rcases hset with hf | hset
  · exact absurd hw hf.not_writesOut
  · constructor
    · rw [hset.retVal, h.cipherText_eq, h.writes, xorWith_length]
      exact toInt_natCast (by unfold KMALLOC_MAX_SIZE at hsize; omega)
    · rw [hset.fs, h.cipherText_eq, Env.written, h.writes, h.afterOpen_eq]
      simp only [contents, overwrite, Function.update_self, Option.getD_some, List.drop_nil,
        List.append_nil, List.take_length, Function.update_idem]

/-! ## Both calls -/

/-- **Round trip**: a call from `D` to `C` and a call from `C` to `R` under the same key, with
    any two thread counts and any interleavings, return the size of `D` and leave `R = D`. -/
theorem call_round_trip (op₁ op₂ : Mode) {env₁ env₂ : Env} {c₁ c₂ : Call Path}
    (hD : D ≠ []) (hK : K ≠ []) (hinput : fs c₁.input = some D) (hkey : fs c₁.key = some K)
    (hd₁ : c₁.Distinct) (hd₂ : c₂.Distinct) (hchain : c₂.input = c₁.output)
    (hsame : c₂.key = c₁.key) (hn₁ : 1 ≤ c₁.threadCount.toInt) (hn₂ : 1 ≤ c₂.threadCount.toInt)
    (hu₁ : Undisturbed env₁ c₁ D.length K.length) (hu₂ : Undisturbed env₂ c₂ D.length K.length) :
    Returns op₁ env₁ c₁ fs (fun r₁ fs₁ => r₁ = D.length ∧
      Returns op₂ env₂ c₂ fs₁ (fun r₂ fs₂ => r₂ = D.length ∧ fs₂ c₂.output = some D)) := by
  have hserved₁ : Served env₁ c₁ fs D K := ⟨hu₁, hd₁, hinput, hkey⟩
  refine (hserved₁.returns op₁ hD hK (by omega)).mono fun s ⟨hpc, hret, hfs⟩ => ⟨hpc, hret, ?_⟩
  have hinput₂ : s.fs c₂.input = some (xorWith K D) := by rw [hfs, hchain, Function.update_self]
  have hkey₂ : s.fs c₂.key = some K := by
    rw [hfs, hsame, Function.update_of_ne hd₁.key_output, hkey]
  have hlen : (xorWith K D).length = D.length := xorWith_length K D
  have hne : xorWith K D ≠ [] := by
    intro he
    rw [he] at hlen
    exact hD (List.length_eq_zero_iff.mp hlen.symm)
  rw [← hlen] at hu₂ ⊢
  have hserved₂ : Served env₂ c₂ s.fs (xorWith K D) K := ⟨hu₂, hd₂, hinput₂, hkey₂⟩
  refine (hserved₂.returns op₂ hne hK (by omega)).mono fun s₂ ⟨hpc₂, hret₂, hfs₂⟩ =>
    ⟨hpc₂, hret₂, ?_⟩
  rw [hfs₂, Function.update_self, xorWith_xorWith]

/-- Five bytes under a key of two, with two threads and then with seven. -/
theorem call_round_trip_five_bytes :
    Returns .encrypt Env.ideal (⟨0, 1, 2, 2⟩ : Call Nat)
      (fun p => if p = 0 then some [10, 20, 30, 40, 50] else if p = 2 then some [7, 9] else none)
      (fun r₁ fs₁ => r₁ = 5 ∧ Returns .decrypt Env.ideal (⟨1, 3, 2, 7⟩ : Call Nat) fs₁
        (fun r₂ fs₂ => r₂ = 5 ∧ fs₂ 3 = some [10, 20, 30, 40, 50])) := by
  have hu : ∀ c : Call Nat, (∀ b, Env.ideal.listOk c.threadCount b = true) →
      Undisturbed Env.ideal c 5 2 := fun c hlists =>
    ⟨by decide, fun _ => rfl, fun _ _ => rfl, by decide, by decide, hlists,
      fun _ bs => by simp [Env.ideal], fun _ _ => rfl, fun _ => rfl⟩
  exact call_round_trip (D := [10, 20, 30, 40, 50]) (K := [7, 9]) .encrypt .decrypt (by decide)
    (by decide) rfl rfl ⟨by decide, by decide, by decide⟩ ⟨by decide, by decide, by decide⟩ rfl rfl
    (by decide) (by decide) (hu _ fun b => by cases b <;> decide)
    (hu _ fun b => by cases b <;> decide)

end Calls

end UsacSyscalls.Cipher
