import Mathlib.Data.List.Perm.Basic
import UsacSyscalls.Cipher.Joint
import UsacSyscalls.Cipher.Keys

/-!
# Calls in a row

A file is passed through any number of calls, each with a key of its own; the output of one is the
input of the next.

* `layers_perm` — the order of the keys does not matter.
* `sequence_layers` — calls in a row compute `layers`, whatever their positive thread counts and
  the interleavings.
* `sequence_keys` — rows of calls under the same keys agree, and the data comes back when every key
  is used an even number of times, in any order.
-/

set_option autoImplicit false

namespace UsacSyscalls.Cipher

open Lib.Run Lib.KeyStream

/-! ## The ciphers commute -/

/-- The data under all the keys, the first key first. -/
def layers (keys : List Bytes) (data : Bytes) : Bytes :=
  keys.foldl (fun data key => xorWith key data) data

theorem xorWith_comm (K₁ K₂ D : Bytes) :
    xorWith K₁ (xorWith K₂ D) = xorWith K₂ (xorWith K₁ D) := by
  apply List.ext_getElem?
  intro i
  simp only [getElem?_xorWith, Option.map_map]
  congr 1
  funext b
  show b ^^^ _ ^^^ _ = b ^^^ _ ^^^ _
  rw [UInt8.xor_assoc, UInt8.xor_assoc, UInt8.xor_comm (keyStream 0 K₂ i)]

instance : RightCommutative fun (data key : Bytes) => xorWith key data :=
  ⟨fun D K₁ K₂ => xorWith_comm K₂ K₁ D⟩

/-- **The order of the keys does not matter.** -/
theorem layers_perm {keys keys' : List Bytes} (h : keys.Perm keys') (D : Bytes) :
    layers keys D = layers keys' D := h.foldl_eq D

theorem layers_append (keys keys' : List Bytes) (D : Bytes) :
    layers (keys ++ keys') D = layers keys' (layers keys D) := List.foldl_append ..

/-- Every key once more, in the opposite order, takes all layers off. -/
theorem layers_reverse (keys : List Bytes) (D : Bytes) :
    layers keys.reverse (layers keys D) = D := by
  induction keys generalizing D with
  | nil => rfl
  | cons K keys ih =>
    rw [List.reverse_cons, layers_append]
    show xorWith K (layers keys.reverse (layers keys (xorWith K D))) = D
    rw [ih, xorWith_xorWith]

/-- Keys that are used twice each, in any order. -/
theorem layers_twice {keys half : List Bytes} (h : keys.Perm (half ++ half)) (D : Bytes) :
    layers keys D = D := by
  have hperm : keys.Perm (half ++ half.reverse) :=
    h.trans (List.Perm.append_left half (List.reverse_perm half).symm)
  rw [layers_perm hperm, layers_append, layers_reverse]

example : layers [[1, 2], [3], [2, 1], [3], [1, 2], [2, 1]] [5, 6, 7] = [5, 6, 7] := by decide

/-! ## The calls -/

section Stages

variable {Path : Type}

/-- The keys of the stages. -/
def keysOf (fs : FS Path) (stages : List (Party Path)) : List Bytes :=
  stages.map fun s => contents fs s.call.key

/-- The stages lead from one path to another: each works undisturbed, with at least one thread and a
    key that is not empty, on three different files, the first of which is the output of the one
    before, and no key file is an output of an earlier stage. -/
def Linked (fs : FS Path) (size : Nat) : Path → List (Party Path) → Path → Prop
  | first, [], last => first = last
  | first, s :: rest, last =>
    s.call.input = first ∧ s.call.Distinct ∧ 1 ≤ s.call.threadCount.toInt ∧
      (∃ K, fs s.call.key = some K ∧ K ≠ [] ∧ Undisturbed s.env s.call size K.length) ∧
      (∀ s' ∈ rest, s'.call.key ≠ s.call.output) ∧ Linked fs size s.call.output rest last

theorem Linked.congr {fs fs' : FS Path} {size : Nat} :
    ∀ {stages : List (Party Path)} {first last : Path}, Linked fs size first stages last →
      (∀ s ∈ stages, fs' s.call.key = fs s.call.key) → Linked fs' size first stages last
  | [], _, _, h, _ => h
  | s :: _, _, _, ⟨hin, hd, hn, ⟨K, hkey, hK, hu⟩, hkeys, hrest⟩, hsame =>
    ⟨hin, hd, hn, ⟨K, (hsame s List.mem_cons_self).trans hkey, hK, hu⟩, hkeys,
      hrest.congr fun s' hs' => hsame s' (List.mem_cons_of_mem s hs')⟩

theorem keysOf_congr {fs fs' : FS Path} {stages : List (Party Path)}
    (h : ∀ s ∈ stages, fs' s.call.key = fs s.call.key) : keysOf fs' stages = keysOf fs stages :=
  List.map_congr_left fun s hs => by rw [contents, contents, h s hs]

end Stages

section Calls

variable {Path : Type} [DecidableEq Path]

/-- Every run of all the stages, one after the other, ends and returns to user space, the last
    one with `Q` of the files. -/
def Sequence : List (Party Path) → FS Path → (FS Path → Prop) → Prop
  | [], fs, Q => Q fs
  | s :: rest, fs, Q => Returns s.op s.env s.call fs fun _ fs' => Sequence rest fs' Q

variable {stages : List (Party Path)} {fs : FS Path} {first last : Path} {D : Bytes}

/-- **Calls in a row** put one layer after the other on the data. -/
theorem sequence_layers (hlinked : Linked fs D.length first stages last)
    (hfirst : fs first = some D) (hD : D ≠ []) :
    Sequence stages fs fun fs' => fs' last = some (layers (keysOf fs stages) D) := by
  induction stages generalizing fs first D with
  | nil =>
    cases hlinked
    exact hfirst
  | cons s rest ih =>
    obtain ⟨rfl, hd, hn, ⟨K, hkey, hK, hu⟩, hkeys, hrest⟩ := hlinked
    have hserved : Served s.env s.call fs D K := ⟨hu, hd, hfirst, hkey⟩
    refine (hserved.returns s.op hD hK (by omega)).mono fun t ⟨hpc, _, hfs⟩ => ⟨hpc, ?_⟩
    have hsame : ∀ s' ∈ rest, t.fs s'.call.key = fs s'.call.key := fun s' hs' => by
      rw [hfs, Function.update_of_ne (hkeys s' hs')]
    have hD' : xorWith K D ≠ [] := by
      rw [← List.length_pos_iff, xorWith_length, List.length_pos_iff]
      exact hD
    have hlayers := ih (D := xorWith K D) ((xorWith_length K D).symm ▸ hrest.congr hsame)
      (by rw [hfs, Function.update_self]) hD'
    rw [keysOf_congr hsame] at hlayers
    have hall : layers (keysOf fs (s :: rest)) D = layers (keysOf fs rest) (xorWith K D) := by
      show layers (keysOf fs rest) (xorWith (contents fs s.call.key) D) = _
      rw [contents, hkey]
      rfl
    rw [hall]
    exact hlayers

/-- **Any number of calls, in any order of the keys**: two rows of `Linked` calls under the same
    keys, as often and in whatever order, leave the same file; and the data itself when every key is
    used an even number of times. -/
theorem sequence_keys {stages' : List (Party Path)} {first' last' : Path}
    (hlinked : Linked fs D.length first stages last)
    (hlinked' : Linked fs D.length first' stages' last') (hfirst : fs first = some D)
    (hfirst' : fs first' = some D) (hD : D ≠ [])
    (hkeys : (keysOf fs stages).Perm (keysOf fs stages')) :
    ∃ C, Sequence stages fs (fun fs' => fs' last = some C) ∧
      Sequence stages' fs (fun fs' => fs' last' = some C) ∧
      ∀ half, (keysOf fs stages).Perm (half ++ half) → C = D := by
  refine ⟨_, sequence_layers hlinked hfirst hD, ?_, fun half hhalf => layers_twice hhalf D⟩
  rw [layers_perm hkeys]
  exact sequence_layers hlinked' hfirst' hD

/-! ## Four calls -/

/-- A call of `my_encrypt` or `my_decrypt` under an undisturbed kernel. -/
def plainStage (op : Mode) (input output key : Nat) (threads : Int32) : Party Nat :=
  ⟨op, Env.ideal, ⟨input, output, key, threads⟩⟩

/-- The file 0, and the keys 8 and 9. -/
def twoKeys (p : Nat) : Option Bytes :=
  if p = 0 then some [10, 20, 30] else if p = 8 then some [7, 9] else if p = 9 then some [3]
  else none

def inner : List (Party Nat) :=
  [plainStage .encrypt 0 1 8 1, plainStage .encrypt 1 2 9 2, plainStage .decrypt 2 3 8 7,
    plainStage .decrypt 3 4 9 3]

def outer : List (Party Nat) :=
  [plainStage .encrypt 0 1 9 2, plainStage .encrypt 1 2 8 5, plainStage .decrypt 2 3 8 1,
    plainStage .decrypt 3 4 9 4]

theorem undisturbed_ideal {c : Call Nat} {dataSize keySize : Nat}
    (hdata : dataSize ≤ KMALLOC_MAX_SIZE) (hkey : keySize ≤ KMALLOC_MAX_SIZE)
    (hlists : ∀ b, Env.ideal.listOk c.threadCount b = true) :
    Undisturbed Env.ideal c dataSize keySize :=
  ⟨by decide, fun _ => rfl, fun _ _ => rfl, by simpa [Env.ideal] using hkey,
    by simpa [Env.ideal] using hdata, hlists, fun _ bs => by simp [Env.ideal], fun _ _ => rfl,
    fun _ => rfl⟩

theorem linked_plain {op : Mode} {input output key : Nat} {threads : Int32} {rest : List (Party Nat)}
    {last : Nat} {K : Bytes} (hK : twoKeys key = some K)
    (hsize : K ≠ [] ∧ K.length ≤ KMALLOC_MAX_SIZE)
    (hd : input ≠ output ∧ key ≠ output ∧ input ≠ key)
    (hthreads : 1 ≤ threads.toInt ∧ ∀ b, Env.ideal.listOk threads b = true)
    (hkeys : ∀ s ∈ rest, s.call.key ≠ output) (h : Linked twoKeys 3 output rest last) :
    Linked twoKeys 3 input (plainStage op input output key threads :: rest) last :=
  ⟨rfl, ⟨hd.1, hd.2.1, hd.2.2⟩, hthreads.1,
    ⟨K, hK, hsize.1, undisturbed_ideal (by decide) hsize.2 hthreads.2⟩, hkeys, h⟩

theorem threads_ideal {threads : Int32} (h : threads ∈ ([1, 2, 3, 4, 5, 7] : List Int32)) :
    1 ≤ threads.toInt ∧ ∀ b, Env.ideal.listOk threads b = true := by
  simp only [List.mem_cons, List.not_mem_nil, or_false] at h
  rcases h with rfl | rfl | rfl | rfl | rfl | rfl <;>
    exact ⟨by decide, fun b => by cases b <;> decide⟩

/-- Both orders of the keys restore the data. -/
theorem sequence_keys_crossed : ∃ C,
    Sequence inner twoKeys (fun fs' => fs' 4 = some C) ∧
      Sequence outer twoKeys (fun fs' => fs' 4 = some C) ∧
      ∀ half, (keysOf twoKeys inner).Perm (half ++ half) → C = [10, 20, 30] := by
  have h8 : twoKeys 8 = some [7, 9] := rfl
  have h9 : twoKeys 9 = some [3] := rfl
  refine @sequence_keys Nat _ inner twoKeys 0 4 [10, 20, 30] outer 0 4 ?_ ?_ rfl rfl (by decide)
    (by decide)
  · refine linked_plain h8 (by decide) (by decide) (threads_ideal (by decide)) (by decide) ?_
    refine linked_plain h9 (by decide) (by decide) (threads_ideal (by decide)) (by decide) ?_
    refine linked_plain h8 (by decide) (by decide) (threads_ideal (by decide)) (by decide) ?_
    exact linked_plain h9 (by decide) (by decide) (threads_ideal (by decide)) (by decide) rfl
  · refine linked_plain h9 (by decide) (by decide) (threads_ideal (by decide)) (by decide) ?_
    refine linked_plain h8 (by decide) (by decide) (threads_ideal (by decide)) (by decide) ?_
    refine linked_plain h8 (by decide) (by decide) (threads_ideal (by decide)) (by decide) ?_
    exact linked_plain h9 (by decide) (by decide) (threads_ideal (by decide)) (by decide) rfl

end Calls

end UsacSyscalls.Cipher
