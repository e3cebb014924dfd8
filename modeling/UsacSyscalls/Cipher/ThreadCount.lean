import UsacSyscalls.Cipher.Balance
import UsacSyscalls.Cipher.Parallel

/-!
# Every value of the thread count

The kernel side receives `thread_count` unchecked and mixes it, a signed `int`, with `size_t` in
three allocation sizes, a division and a remainder.

* `listSize_of_kmalloc` — a size that wraps around is one `kmalloc` refuses.
* `ThreadCountHandled` — sizes exact, indices inside their lists, no divisor zero, and an error for
  every count that is not positive.
* `threadCountHandled_iff` — all of this holds exactly when the count is not zero, or the call has
  failed before it divides by it.
-/

set_option autoImplicit false

namespace UsacSyscalls.Cipher

open Lib.Run Lib.Tiling

/-- The three lists and the sizes of their elements. -/
def lists : List (Block × Nat) :=
  [(.threadList, SIZEOF_POINTER), (.taskList, SIZEOF_TASK_PARAMS),
    (.fragmentList, SIZEOF_DATA_FRAGMENT)]

theorem elementSize_bounds {b : Block} {size : Nat} (h : (b, size) ∈ lists) :
    0 < size ∧ size ≤ 80 := by
  simp only [lists, SIZEOF_POINTER, SIZEOF_TASK_PARAMS, SIZEOF_DATA_FRAGMENT, List.mem_cons,
    Prod.mk.injEq, List.not_mem_nil, or_false] at h
  omega

theorem listOk_eq {env : Env} {n : Int32} {b : Block} {size : Nat} (h : (b, size) ∈ lists) :
    env.listOk n b = env.kmalloc b (listSize size n) := by
  simp only [lists, List.mem_cons, Prod.mk.injEq, List.not_mem_nil, or_false] at h
  rcases h with ⟨rfl, rfl⟩ | ⟨rfl, rfl⟩ | ⟨rfl, rfl⟩ <;> rfl

/-! ## The sizes -/

theorem listSize_of_nonneg {n : Int32} {size : Nat} (h : size ≤ 80) (hn : 0 ≤ n.toInt) :
    (listSize size n : Int) = size * n.toInt := by
  have hlt := n.toInt_lt
  have hcount := toSizeT_of_bounds hn (by omega)
  have hmul : size * toSizeT n.toInt ≤ 80 * toSizeT n.toInt := Nat.mul_le_mul_right _ h
  unfold listSize
  rw [Nat.mod_eq_of_lt (by omega)]
  push_cast
  rw [hcount]

/-- The size for a negative count is close to `2 ^ 64`. -/
theorem listSize_of_neg {n : Int32} {size : Nat} (h0 : 0 < size) (h : size ≤ 80)
    (hn : n.toInt < 0) : KMALLOC_MAX_SIZE < listSize size n := by
  have hlo := n.le_toInt
  have hcount : toSizeT n.toInt = 2 ^ 64 - (-n.toInt).toNat := by unfold toSizeT; omega
  have hpos : 1 ≤ (-n.toInt).toNat := by omega
  have hle : (-n.toInt).toNat ≤ 2 ^ 31 := by omega
  generalize (-n.toInt).toNat = m at hcount hpos hle
  have hbig : size * m ≤ 80 * 2 ^ 31 := Nat.mul_le_mul h hle
  have hone : size * 1 ≤ size * m := Nat.mul_le_mul_left _ hpos
  have hsplit : size * (2 ^ 64 - m) = (size - 1) * 2 ^ 64 + (2 ^ 64 - size * m) := by
    rw [Nat.mul_sub, Nat.sub_mul]
    omega
  unfold listSize KMALLOC_MAX_SIZE
  rw [hcount, hsplit, Nat.mul_add_mod_self_right, Nat.mod_eq_of_lt (by omega)]
  omega

/-- **A size that `kmalloc` serves is exactly `thread_count` elements.** -/
theorem listSize_of_kmalloc {env : Env} {n : Int32} {b : Block} {size : Nat}
    (hb : (b, size) ∈ lists) (h : env.kmalloc b (listSize size n) = true) :
    (listSize size n : Int) = size * n.toInt := by
  obtain ⟨h0, hle⟩ := elementSize_bounds hb
  refine listSize_of_nonneg hle ?_
  by_contra hn
  have hserved := Env.size_le_of_kmalloc h
  have hlarge := listSize_of_neg h0 hle (by omega : n.toInt < 0)
  omega

section ThreadCount

variable {Path : Type} [DecidableEq Path]

/-! ## The indices -/

/-- The next step of some thread uses the entry `i` of the lists. -/
def UsesEntry (c : Call Path) (s : State Path) (i : Nat) : Prop :=
  ((s.pc = .spawn i ∨ s.pc = .await i) ∧ (i : Int) < c.threadCount.toInt) ∨
    ∃ w, s.workers[i]? = some w ∧ w.completed = false

/-- What a call with this thread count must do, over all its runs. -/
structure ThreadCountHandled (op : Mode) (env : Env) (c : Call Path) (fs₀ : FS Path) : Prop where
  sizes : ∀ b size, (b, size) ∈ lists → env.kmalloc b (listSize size c.threadCount) = true →
    (listSize size c.threadCount : Int) = size * c.threadCount.toInt
  indices : ∀ s, Reach (step op env c) (State.init fs₀) s → ∀ i, UsesEntry c s i →
    ∀ b size, (b, size) ∈ lists → (i + 1) * size ≤ listSize size c.threadCount
  divisors : ∀ s, Reach (step op env c) (State.init fs₀) s →
    s.pc ≠ .fault ∧ ∀ w ∈ s.workers, w.fragment.keyLength ≠ 0
  nonpositive : c.threadCount.toInt ≤ 0 → Returns op env c fs₀ (fun r _ => r < 0)

variable {env : Env} {c : Call Path} {fs₀ : FS Path}

/-- Entries are only used by a call whose lists have been allocated, below its thread count. -/
theorem UsesEntry.lt {op : Mode} {s : State Path} {i : Nat}
    (hr : Reach (step op env c) (State.init fs₀) s) (h : UsesEntry c s i) :
    Ready env c fs₀ ∧ (i : Int) < c.threadCount.toInt := by
  rcases h with ⟨hpc, hlt⟩ | ⟨w, hw, _⟩
  · have hinv := reach_inv hr
    unfold Inv at hinv
    rcases hpc with hpc | hpc <;> simp only [hpc] at hinv
    · exact ⟨hinv.ready, hlt⟩
    · exact ⟨hinv.1.ready, hlt⟩
  · have haudit := reach_audit hr
    have hlt := (haudit.fragment i w hw).1
    have hne : s.workers ≠ [] := fun he => by rw [he] at hw; simp at hw
    exact ⟨haudit.ready hne, by unfold Call.threads at hlt; omega⟩

theorem reach_entry {op : Mode} {s : State Path} {i : Nat} {b : Block} {size : Nat}
    (hr : Reach (step op env c) (State.init fs₀) s) (h : UsesEntry c s i)
    (hb : (b, size) ∈ lists) : (i + 1) * size ≤ listSize size c.threadCount := by
  obtain ⟨hready, hlt⟩ := h.lt hr
  have hserved : env.kmalloc b (listSize size c.threadCount) = true := by
    rw [← listOk_eq hb]
    exact hready.lists b
  have hexact := listSize_of_kmalloc hb hserved
  have hthreads : (c.threads : Int) = c.threadCount.toInt := by unfold Call.threads; omega
  rw [← hthreads] at hexact
  have hsize : listSize size c.threadCount = size * c.threads := by exact_mod_cast hexact
  rw [hsize, Nat.mul_comm size]
  exact Nat.mul_le_mul_right _ (by omega)

/-! ## The divisors -/

theorem reach_keyLength {op : Mode} {s : State Path}
    (hr : Reach (step op env c) (State.init fs₀) s) :
    ∀ w ∈ s.workers, w.fragment.keyLength ≠ 0 := by
  intro w hw
  obtain ⟨j, hj⟩ := List.mem_iff_getElem?.mp hw
  have haudit := reach_audit hr
  have hready := haudit.ready (List.ne_nil_of_mem hw)
  rw [(haudit.fragment j w hj).2]
  exact hready.keySize

/-- A call with the thread count zero is served with three empty lists. -/
theorem Loaded.ready_of_zero (h : Loaded env c fs₀) (h0 : c.threadCount.toInt = 0) :
    Ready env c fs₀ := by
  refine ⟨h, fun b => ?_⟩
  cases b <;> simp only [Env.listOk, listSize, toSizeT_eq_zero.mpr h0, Nat.mul_zero, Nat.zero_mod,
    env.kmalloc_zero]

theorem reach_no_fault {op : Mode} {s : State Path}
    (h : Loaded env c fs₀ → c.threadCount.toInt ≠ 0)
    (hr : Reach (step op env c) (State.init fs₀) s) : s.pc ≠ .fault := by
  intro hpc
  have hinv := reach_inv hr
  unfold Inv at hinv
  simp only [hpc] at hinv
  exact h hinv.1.toLoaded hinv.2.1

/-! ## The counts that are not positive -/

/-- A call that returns with such a count has failed. -/
theorem Settled.negative {s : State Path} (h : Settled env c fs₀ s)
    (hn : c.threadCount.toInt ≤ 0) : s.retVal < 0 := by
  rcases h with hf | hw
  · exact hf.negative
  · have := hw.writesOut.pos
    omega

/-- **The division by zero**: with the thread count zero and its files loaded, a call never
    returns. -/
theorem not_returns_of_zero (op : Mode) (hl : Loaded env c fs₀) (h0 : c.threadCount.toInt = 0)
    (Q : Int → FS Path → Prop) : ¬ Returns op env c fs₀ Q := by
  intro hret
  obtain ⟨s, hr, _, hdone, _⟩ := hret.exists_final
  have hinv := reach_inv hr
  unfold Inv at hinv
  simp only [hdone] at hinv
  have hready := hl.ready_of_zero h0
  rcases hinv with hf | hw
  · rcases hf.crew with ⟨hn, _⟩ | ⟨_, j, hj, _⟩
    · exact hn hready
    · have := hj.lt
      omega
  · have := hw.writesOut.pos
    omega

/-- **Every thread count is handled** iff it is not zero, or the call fails before it has loaded
    its files. -/
theorem threadCountHandled_iff (op : Mode) (env : Env) (c : Call Path) (fs₀ : FS Path) :
    ThreadCountHandled op env c fs₀ ↔ (Loaded env c fs₀ → c.threadCount.toInt ≠ 0) := by
  constructor
  · intro h hl h0
    exact not_returns_of_zero op hl h0 _ (h.nonpositive (by omega))
  · intro h
    refine ⟨fun b size hb hserved => listSize_of_kmalloc hb hserved,
      fun s hr i hi b size hb => reach_entry hr hi hb,
      fun s hr => ⟨reach_no_fault h hr, reach_keyLength hr⟩, fun hn => ?_⟩
    refine (call_returns op env c fs₀ fun hr => h hr.toLoaded).mono fun s ⟨hpc, hset⟩ => ⟨hpc, ?_⟩
    exact hset.negative hn

/-- Three bytes under a key of two, with no thread at all: the thirteenth statement divides by
    zero. -/
theorem not_threadCountHandled_zero :
    ¬ ThreadCountHandled .encrypt Env.ideal (⟨0, 1, 2, 0⟩ : Call Nat)
      (fun p => if p = 0 then some [10, 20, 30] else if p = 2 then some [7, 9] else none) := by
  intro h
  exact (h.divisors _ (reach_of_exec (List.replicate 13 .main) rfl)).1 rfl

end ThreadCount

end UsacSyscalls.Cipher
