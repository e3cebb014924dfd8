import UsacSyscalls.Lib.KeyStream
import UsacSyscalls.Cipher.RoundTrip

/-!
# Decrypting with another key

* `xorWith_xorWith_eq_iff` — two ciphers in a row restore the data iff the two key streams agree on
  its length.
* `Passes` — a file encrypted under one key and decrypted under another, by two undisturbed calls.
* `different_key` — when the second call restores the file; and that one file as long as both keys
  together settles it for all files.
-/

set_option autoImplicit false

namespace UsacSyscalls.Cipher

open Lib.Run Lib.KeyStream

/-! ## Two ciphers in a row -/

theorem getElem?_xorWith (key data : Bytes) (i : Nat) :
    (xorWith key data)[i]? = data[i]?.map fun b => b ^^^ keyStream 0 key i := by
  rw [xorWith, List.getElem?_mapIdx]
  rfl

theorem xor_xor_eq_iff (b k₁ k₂ : UInt8) : b ^^^ k₁ ^^^ k₂ = b ↔ k₁ = k₂ := by
  constructor
  · intro h
    have hk : k₁ ^^^ k₂ = 0 := by
      have h' := congrArg (b ^^^ ·) h
      simpa only [← UInt8.xor_assoc, UInt8.xor_self, UInt8.zero_xor] using h'
    have hk₂ := congrArg (k₁ ^^^ ·) hk
    simpa only [← UInt8.xor_assoc, UInt8.xor_self, UInt8.zero_xor, UInt8.xor_zero] using hk₂.symm
  · rintro rfl
    rw [UInt8.xor_assoc, UInt8.xor_self, UInt8.xor_zero]

/-- **Two keys in a row restore the data** iff their streams agree as far as it reaches. -/
theorem xorWith_xorWith_eq_iff (K₁ K₂ D : Bytes) :
    xorWith K₂ (xorWith K₁ D) = D ↔ ∀ i < D.length, keyStream 0 K₁ i = keyStream 0 K₂ i := by
  constructor
  · intro h i hi
    have hbyte := congrArg (·[i]?) h
    simp only [getElem?_xorWith, List.getElem?_eq_getElem hi, Option.map_some,
      Option.some.injEq] at hbyte
    exact (xor_xor_eq_iff _ _ _).mp hbyte
  · intro h
    apply List.ext_getElem?
    intro i
    rw [getElem?_xorWith, getElem?_xorWith]
    by_cases hi : i < D.length
    · simp only [List.getElem?_eq_getElem hi, Option.map_some, Option.some.injEq]
      exact (xor_xor_eq_iff _ _ _).mpr (h i hi)
    · rw [List.getElem?_eq_none (by omega)]
      rfl

/-! ## Two calls under two keys -/

section Passes

variable {Path : Type} [DecidableEq Path]

/-- The file `D` is encrypted under `K₁` and the outcome decrypted under `K₂`, by two calls with any
    thread counts that the kernel serves in full. -/
structure Passes (Path : Type) [DecidableEq Path] (K₁ K₂ D : Bytes) where
  fs : FS Path
  env₁ : Env
  env₂ : Env
  call₁ : Call Path
  call₂ : Call Path
  input : fs call₁.input = some D
  key₁ : fs call₁.key = some K₁
  key₂ : fs call₂.key = some K₂
  chain : call₂.input = call₁.output
  distinct₁ : call₁.Distinct
  distinct₂ : call₂.Distinct
  positive₁ : 1 ≤ call₁.threadCount.toInt
  positive₂ : 1 ≤ call₂.threadCount.toInt
  undisturbed₁ : Undisturbed env₁ call₁ D.length K₁.length
  undisturbed₂ : Undisturbed env₂ call₂ D.length K₂.length

variable {K₁ K₂ D : Bytes}

/-- In every interleaving of the two calls' threads the second call writes `D` again. -/
def Passes.Restores (p : Passes Path K₁ K₂ D) : Prop :=
  Returns .encrypt p.env₁ p.call₁ p.fs fun r₁ fs₁ => r₁ = D.length ∧
    Returns .decrypt p.env₂ p.call₂ fs₁ fun r₂ fs₂ => r₂ = D.length ∧
      fs₂ p.call₂.output = some D

theorem Passes.served₁ (p : Passes Path K₁ K₂ D) : Served p.env₁ p.call₁ p.fs D K₁ :=
  ⟨p.undisturbed₁, p.distinct₁, p.input, p.key₁⟩

/-- The second call runs over the files the first one has left. -/
theorem Passes.served₂ (p : Passes Path K₁ K₂ D) :
    Served p.env₂ p.call₂ (Function.update p.fs p.call₁.output (some (xorWith K₁ D)))
      (xorWith K₁ D) K₂ := by
  have hkey : p.call₂.key ≠ p.call₁.output := by
    rw [← p.chain]
    exact p.distinct₂.input_key.symm
  refine ⟨?_, p.distinct₂, ?_, ?_⟩
  · rw [xorWith_length]
    exact p.undisturbed₂
  · rw [p.chain, Function.update_self]
  · rw [Function.update_of_ne hkey]
    exact p.key₂

/-- **What the two calls do to the file**: they combine it with both keys. -/
theorem Passes.restores_iff (p : Passes Path K₁ K₂ D) (hD : D ≠ []) (hK₁ : K₁ ≠ [])
    (hK₂ : K₂ ≠ []) : p.Restores ↔ xorWith K₂ (xorWith K₁ D) = D := by
  have hlen : (xorWith K₁ D).length = D.length := xorWith_length K₁ D
  have hne : xorWith K₁ D ≠ [] := by
    intro he
    rw [he] at hlen
    exact hD (List.length_eq_zero_iff.mp hlen.symm)
  have hpos₁ := p.positive₁
  have hpos₂ := p.positive₂
  have hsecond : Returns .decrypt p.env₂ p.call₂
      (Function.update p.fs p.call₁.output (some (xorWith K₁ D)))
      (fun r₂ fs₂ => r₂ = D.length ∧ fs₂ p.call₂.output = some D) ↔
        xorWith K₂ (xorWith K₁ D) = D := by
    refine Ensures.iff_of_outcome ?_
    refine (p.served₂.returns .decrypt hne hK₂ (by omega)).mono fun s ⟨hdone, hret, hfs⟩ => ?_
    rw [hlen] at hret
    simp only [hdone, hret, hfs, Function.update_self, Option.some.injEq, true_and]
  refine Ensures.iff_of_outcome ?_
  refine (p.served₁.returns .encrypt hD hK₁ (by omega)).mono fun s ⟨hdone, hret, hfs⟩ => ?_
  simp only [hdone, hret, hfs, true_and]
  exact hsecond

/-- **When a different key decrypts**: a file is restored iff the two keys, repeated, agree on its
    length; and if a file as long as both keys together is restored, so is every other file. -/
theorem different_key (K₁ K₂ : Bytes) (hK₁ : K₁ ≠ []) (hK₂ : K₂ ≠ []) :
    (∀ D, D ≠ [] → ∀ p : Passes Path K₁ K₂ D, p.Restores ↔
      ∀ i < D.length, K₁.getD (i % K₁.length) 0 = K₂.getD (i % K₂.length) 0) ∧
    ∀ D, K₁.length + K₂.length ≤ D.length → ∀ p : Passes Path K₁ K₂ D, p.Restores →
      ∀ D', D' ≠ [] → ∀ p' : Passes Path K₁ K₂ D', p'.Restores := by
  constructor
  · intro D hD p
    exact (p.restores_iff hD hK₁ hK₂).trans (xorWith_xorWith_eq_iff K₁ K₂ D)
  · intro D hlong p hp D' hD' p'
    have hpos := List.length_pos_iff.mpr hK₁
    have hD : D ≠ [] := by
      rintro rfl
      simp only [List.length_nil] at hlong
      omega
    have hagree := (xorWith_xorWith_eq_iff K₁ K₂ D).mp ((p.restores_iff hD hK₁ hK₂).mp hp)
    have hstream : keyStream (0 : UInt8) K₁ = keyStream 0 K₂ :=
      keyStream_eq_of_agree hK₁ hK₂ fun i hi => hagree i (by omega)
    refine (p'.restores_iff hD' hK₁ hK₂).mpr ((xorWith_xorWith_eq_iff K₁ K₂ D').mpr ?_)
    intro i _
    rw [hstream]

/-- Five bytes encrypted under a key of two and decrypted under the same key written twice. -/
def doubledKey : Passes Nat [7, 9] [7, 9, 7, 9] [10, 20, 30, 40, 50] where
  fs p :=
    if p = 0 then some [10, 20, 30, 40, 50] else if p = 2 then some [7, 9]
    else if p = 4 then some [7, 9, 7, 9] else none
  env₁ := Env.ideal
  env₂ := Env.ideal
  call₁ := ⟨0, 1, 2, 2⟩
  call₂ := ⟨1, 3, 4, 7⟩
  input := rfl
  key₁ := rfl
  key₂ := rfl
  chain := rfl
  distinct₁ := ⟨by decide, by decide, by decide⟩
  distinct₂ := ⟨by decide, by decide, by decide⟩
  positive₁ := by decide
  positive₂ := by decide
  undisturbed₁ := ⟨by decide, fun _ => rfl, fun _ _ => rfl, by decide, by decide,
    fun b => by cases b <;> decide, fun _ bs => by simp [Env.ideal], fun _ _ => rfl, fun _ => rfl⟩
  undisturbed₂ := ⟨by decide, fun _ => rfl, fun _ _ => rfl, by decide, by decide,
    fun b => by cases b <;> decide, fun _ bs => by simp [Env.ideal], fun _ _ => rfl, fun _ => rfl⟩

/-- The doubled key decrypts. -/
theorem different_key_doubled : doubledKey.Restores :=
  ((different_key [7, 9] [7, 9, 7, 9] (by decide) (by decide)).1 _ (by decide) doubledKey).mpr
    (by decide)

end Passes

end UsacSyscalls.Cipher
