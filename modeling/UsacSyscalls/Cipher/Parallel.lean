import UsacSyscalls.Cipher.RoundTrip

/-!
# The parallel phase equals the sequential cipher

* `Audit` — two facts about every reachable state that `Inv` does not keep at the cleanup labels:
  each worker holds the tile of its index, and what was handed to `kernel_write` is still in the
  data buffer.
* `reach_index` — no worker of any call touches a byte outside the data.
* `parallel_eq_sequential` — once the main thread has passed the last wait, the data buffer is the
  sequential cipher of the data, for every thread count and every interleaving.
* `call_pastLastWait` — every complete run gets there.
-/

set_option autoImplicit false

namespace UsacSyscalls.Cipher

open Lib.Run Lib.Tiling

/-- The index of the data buffer that a worker's next step reads and writes. -/
def Worker.index (w : Worker) : Option Nat :=
  if w.completed then none else if w.i < w.fragment.endIdx then some w.i else none

/-- With `n` threads, the main thread has left the loop of `wait_for_completion` calls. -/
def Pc.pastLastWait (n : Nat) : Pc → Prop
  | .copyPaths | .openInput | .openOutput | .openKey | .checkFiles | .sizeKey | .allocKey
  | .readKey | .sizeInput | .allocData | .readInput | .allocLists | .split | .spawn _
  | .fault => False
  | .await i => n ≤ i
  | .write | .freeThreadList | .freeTaskList | .freeFragmentList | .freeFileBuffer
  | .freeEncryptionKey | .closeKeyFile | .closeOutputFile | .closeInputFile | .exit
  | .freeMemory | .done => True

section Parallel

variable {Path : Type} [DecidableEq Path]

/-! ## What no step forgets -/

structure Audit (env : Env) (c : Call Path) (fs₀ : FS Path) (s : State Path) : Prop where
  fragment : ∀ (j : Nat) (w : Worker), s.workers[j]? = some w →
    j < c.threads ∧ w.fragment = fragment₀ env c fs₀ j
  ready : s.workers ≠ [] → Ready env c fs₀
  buffer : s.handed ≠ none → s.fileBuffer = cipherText env c fs₀

variable {env : Env} {c : Call Path} {fs₀ : FS Path}

theorem Audit.of_eq {s s' : State Path} (h : Audit env c fs₀ s) (hw : s'.workers = s.workers)
    (hh : s'.handed = s.handed) (hb : s'.fileBuffer = s.fileBuffer) : Audit env c fs₀ s' :=
  ⟨by rw [hw]; exact h.fragment, by rw [hw]; exact h.ready, by rw [hh, hb]; exact h.buffer⟩

/-- As long as nothing has been handed to `kernel_write`, the buffer is of no concern. -/
theorem Audit.of_unwritten {s s' : State Path} (h : Audit env c fs₀ s)
    (hw : s'.workers = s.workers) (hh : s'.handed = none) : Audit env c fs₀ s' :=
  ⟨by rw [hw]; exact h.fragment, by rw [hw]; exact h.ready, fun hne => absurd hh hne⟩

/-- Only a call that got to `kernel_write` has handed anything to it. -/
theorem Inv.written_of_handed {s : State Path} (h : Inv env c fs₀ s) (hh : s.handed ≠ none) :
    Written env c fs₀ s := by
  have hsettled : Settled env c fs₀ s → Written env c fs₀ s := fun h =>
    h.elim (fun hf => absurd hf.handed hh) id
  unfold Inv at h
  cases hpc : s.pc <;> simp only [hpc] at h
  case copyPaths | openInput | openOutput | openKey | checkFiles | sizeKey | allocKey | readKey =>
    exact absurd h.1.handed hh
  case sizeInput | allocData | readInput => exact absurd h.1.idle.handed hh
  case allocLists | split => exact absurd h.1.idle.handed hh
  case spawn i => exact absurd h.handed hh
  case await i => exact absurd h.1.handed hh
  case write => exact absurd h.1.handed hh
  case fault => exact absurd h.2.2.2 hh
  all_goals exact hsettled h

theorem spawn_audit {t : Texts} {i : Nat} {s : State Path} (h : Audit env c fs₀ s)
    (hc : Crew env c fs₀ i s) : Audit env c fs₀ (spawn t env c i s) := by
  unfold spawn
  split
  · rename_i hlt
    split
    · exact h.of_eq rfl rfl rfl
    · refine ⟨fun j w hj => ?_, fun _ => hc.ready, h.buffer⟩
      simp only [List.getElem?_append] at hj
      split at hj
      · exact h.fragment j w hj
      · rw [List.getElem?_singleton] at hj
        split at hj
        · cases hj
          have hlen := hc.length
          have hji : j = i := by omega
          subst hji
          refine ⟨by unfold Call.threads; omega, ?_⟩
          exact fragmentOf_eq hc.fileSize hc.keyLength hc.fragmentSize hc.extraBytes
            hc.ready.fileSize_le hlt
        · cases hj
  · exact h.of_eq rfl rfl rfl

theorem write_audit {t : Texts} {s : State Path} (h : Audit env c fs₀ s)
    (hc : Crew env c fs₀ c.threads s) (hdone : ∀ w ∈ s.workers, w.completed = true) :
    Audit env c fs₀ (write t env c s) := by
  have hbuf := hc.fileBuffer_eq hdone
  refine ⟨?_, ?_, fun _ => ?_⟩
  · rw [write_workers]; exact h.fragment
  · rw [write_workers]; exact h.ready
  · rw [write_fileBuffer]; exact hbuf

theorem mainStep_audit {t : Texts} {s s' : State Path} (hi : Inv env c fs₀ s)
    (h : Audit env c fs₀ s) (hs : mainStep t env c s = some s') : Audit env c fs₀ s' := by
  unfold Inv at hi
  rcases mainStep_cases hs with ⟨-, rfl⟩ | ⟨i, hpc, rfl⟩ | ⟨hpc, rfl⟩ | hside
  · exact h.of_eq rfl rfl rfl
  · simp only [hpc] at hi
    exact spawn_audit h hi
  · simp only [hpc] at hi
    exact write_audit h hi.1 hi.2
  · rcases hside.fileBuffer with hb | hpc | hpc
    · exact h.of_eq hside.workers hside.handed hb
    · simp only [hpc] at hi
      exact h.of_unwritten hside.workers (hside.handed.trans hi.1.idle.handed)
    · simp only [hpc] at hi
      exact h.of_unwritten hside.workers (hside.handed.trans hi.1.idle.handed)

theorem workerStep_audit {op : Mode} {k : Nat} {s s' : State Path} (hi : Inv env c fs₀ s)
    (h : Audit env c fs₀ s) (hs : workerStep op k s = some s') : Audit env c fs₀ s' := by
  obtain ⟨w, hw, hc, hstep⟩ := workerStep_cases hs
  have hne : s.workers ≠ [] := fun he => by rw [workerStep_nil he] at hs; cases hs
  -- whoever still moves does so before `kernel_write`
  have hnone : s.handed = none := by
    by_contra hh
    have hdone := (hi.written_of_handed hh).completed w (List.mem_of_getElem? hw)
    rw [hc] at hdone
    cases hdone
  have hfrag : ∀ w' : Worker, w'.fragment = w.fragment → ∀ (j : Nat) (v : Worker),
      (s.workers.set k w')[j]? = some v → j < c.threads ∧ v.fragment = fragment₀ env c fs₀ j := by
    intro w' hw' j v hj
    rcases getElem?_set_cases hw hj with ⟨rfl, rfl⟩ | ⟨_, hj⟩
    · rw [hw']
      exact h.fragment j w hw
    · exact h.fragment j v hj
  rcases hstep with ⟨_, rfl⟩ | ⟨_, rfl⟩
  · exact ⟨hfrag _ rfl, fun _ => h.ready hne, fun hh => absurd hnone hh⟩
  · exact ⟨hfrag _ rfl, fun _ => h.ready hne, fun hh => absurd hnone hh⟩

/-- **Every reachable state passes the audit.** -/
theorem reach_audit {op : Mode} {s : State Path} (h : Reach (step op env c) (State.init fs₀) s) :
    Audit env c fs₀ s := by
  have hstart : Inv env c fs₀ (State.init fs₀) ∧ Audit env c fs₀ (State.init fs₀) :=
    ⟨init_inv env c fs₀, fun j w hj => by simp [State.init] at hj, fun hne => absurd rfl hne,
      fun hne => absurd rfl hne⟩
  refine (h.invariant (I := fun s => Inv env c fs₀ s ∧ Audit env c fs₀ s) hstart ?_).2
  intro a t t' ⟨hi, ha⟩ hs
  refine ⟨step_inv hi hs, ?_⟩
  cases a with
  | main => exact mainStep_audit hi ha hs
  | worker k => exact workerStep_audit hi ha hs

/-! ## The indices the workers touch -/

theorem Worker.index_lt {w : Worker} {i : Nat} (h : w.index = some i) :
    i = w.i ∧ i < w.fragment.endIdx := by
  unfold Worker.index at h
  split at h
  · cases h
  · split at h
    · rename_i hlt
      cases h
      exact ⟨rfl, hlt⟩
    · cases h

/-- **No worker of any call touches a byte outside the data**, also when a call has failed and its
    workers go on. -/
theorem reach_index {op : Mode} {s : State Path} (hr : Reach (step op env c) (State.init fs₀) s) :
    ∀ w ∈ s.workers, ∀ i, w.index = some i → i < fileSize₀ env c fs₀ := by
  intro w hw i hidx
  obtain ⟨j, hj⟩ := List.mem_iff_getElem?.mp hw
  obtain ⟨hlt, hfrag⟩ := (reach_audit hr).fragment j w hj
  have hend := (Worker.index_lt hidx).2
  have htile : tileHi (fileSize₀ env c fs₀) c.threads j ≤ fileSize₀ env c fs₀ := tileHi_le hlt
  rw [hfrag] at hend
  exact Nat.lt_of_lt_of_le hend htile

/-! ## The buffer after the last wait -/

/-- **Past the last wait the data buffer holds the cipher text.** -/
theorem reach_fileBuffer {op : Mode} {s : State Path} (hw : WritesOut env c fs₀)
    (hr : Reach (step op env c) (State.init fs₀) s) (hpast : s.pc.pastLastWait c.threads) :
    s.fileBuffer = cipherText env c fs₀ := by
  have hinv := reach_inv hr
  have haudit := reach_audit hr
  have hsettled : Settled env c fs₀ s → s.fileBuffer = cipherText env c fs₀ := by
    rintro (hf | hwr)
    · exact absurd hw hf.not_writesOut
    · exact haudit.buffer (by rw [hwr.handed]; simp)
  unfold Inv at hinv
  cases hpc : s.pc <;> simp only [hpc, Pc.pastLastWait] at hinv hpast
  case await i =>
    refine hinv.1.fileBuffer_eq fun w hmem => ?_
    obtain ⟨j, hj⟩ := List.mem_iff_getElem?.mp hmem
    have hjlt := (List.getElem?_eq_some_iff.mp hj).1
    rw [hinv.1.length] at hjlt
    exact hinv.2 j w (by omega) hj
  case write => exact hinv.1.fileBuffer_eq hinv.2
  all_goals exact hsettled hinv

theorem cipherText_getD {i : Nat} (hi : i < fileSize₀ env c fs₀) :
    (cipherText env c fs₀).getD i 0 =
      (data₀ env c fs₀).getD i 0 ^^^ (key₀ env c fs₀).getD (i % keyLength₀ env c fs₀) 0 := by
  rw [← data₀_length] at hi
  rw [cipherText, List.getD_eq_getElem?_getD, List.getElem?_mapIdx, List.getD_eq_getElem?_getD,
    List.getElem?_eq_getElem hi]
  rfl

/-- **The parallel phase equals the sequential cipher.**  In a call whose allocations and threads
    all succeed, no worker touches an index outside the data, and past the last wait every byte of
    the data has been combined with its key byte exactly once; so any other thread count and any
    other schedule give the same buffer. -/
theorem parallel_eq_sequential (op : Mode) (env : Env) (c : Call Path) (fs₀ : FS Path)
    (hw : WritesOut env c fs₀) (s : State Path)
    (hr : Reach (step op env c) (State.init fs₀) s) :
    (∀ w ∈ s.workers, ∀ i, w.index = some i → i < fileSize₀ env c fs₀) ∧
    (s.pc.pastLastWait c.threads →
      s.fileBuffer.length = fileSize₀ env c fs₀ ∧
      (∀ i < fileSize₀ env c fs₀, s.fileBuffer.getD i 0 =
        (data₀ env c fs₀).getD i 0 ^^^ (key₀ env c fs₀).getD (i % keyLength₀ env c fs₀) 0) ∧
      ∀ (op' : Mode) (n : Int32) (s' : State Path),
        WritesOut env { c with threadCount := n } fs₀ →
        Reach (step op' env { c with threadCount := n }) (State.init fs₀) s' →
        s'.pc.pastLastWait (Call.threads { c with threadCount := n }) →
          s'.fileBuffer = s.fileBuffer) := by
  refine ⟨reach_index hr, fun hpast => ?_⟩
  have hbuf := reach_fileBuffer hw hr hpast
  refine ⟨by rw [hbuf, cipherText_length], fun i hi => by rw [hbuf, cipherText_getD hi], ?_⟩
  intro op' n s' hw' hr' hpast'
  -- neither the data nor the key depend on the thread count
  rw [reach_fileBuffer hw' hr' hpast', hbuf]
  rfl

/-- Three bytes under a key of two with two threads, at the end of a run. -/
theorem parallel_eq_sequential_three_bytes :
    ∃ s : State Nat, Reach (step .encrypt Env.ideal (⟨0, 1, 2, 2⟩ : Call Nat))
        (State.init fun p =>
          if p = 0 then some [10, 20, 30] else if p = 2 then some [7, 9] else none) s ∧
      s.pc = .done ∧ s.fileBuffer.length = 3 ∧ s.fileBuffer.getD 2 0 = 25 := by
  let c : Call Nat := ⟨0, 1, 2, 2⟩
  let fs : FS Nat := fun p => if p = 0 then some [10, 20, 30] else if p = 2 then some [7, 9] else none
  have hserved : Served Env.ideal c fs [10, 20, 30] [7, 9] :=
    ⟨⟨by decide, fun _ => rfl, fun _ _ => rfl, by decide, by decide, fun b => by cases b <;> decide,
      fun _ bs => by simp [Env.ideal], fun _ _ => rfl, fun _ => rfl⟩,
      ⟨by decide, by decide, by decide⟩, rfl, rfl⟩
  have hw : WritesOut Env.ideal c fs := hserved.writesOut (by decide) (by decide) (by decide)
  have hruns := hserved.returns .encrypt (by decide) (by decide) (by decide)
  obtain ⟨s, hr, -, hdone, -⟩ := hruns.exists_final
  have hseq := parallel_eq_sequential .encrypt Env.ideal c fs hw s hr
  obtain ⟨hlen, hbytes, -⟩ := hseq.2 (by rw [hdone]; trivial)
  rw [hserved.fileSize₀_eq] at hlen hbytes
  rw [hserved.data₀_eq, hserved.key₀_eq, hserved.keyLength₀_eq] at hbytes
  exact ⟨s, hr, hdone, hlen, hbytes 2 (by decide)⟩

/-- **Every complete run gets past the last wait** when all allocations and threads succeed, and
    leaves the cipher text in the data buffer. -/
theorem call_pastLastWait (op : Mode) (env : Env) (c : Call Path) (fs₀ : FS Path)
    (hw : WritesOut env c fs₀) :
    Ensures (step op env c)
      (fun s => s.pc.pastLastWait c.threads ∧ s.fileBuffer = cipherText env c fs₀)
      (State.init fs₀) := by
  refine (call_ensures op env c fs₀).mono fun s ⟨hr, hend⟩ => ?_
  rcases hend with ⟨hpc, -⟩ | ⟨-, -, hzero⟩
  · have hpast : s.pc.pastLastWait c.threads := by
      rw [hpc]
      trivial
    exact ⟨hpast, reach_fileBuffer hw hr hpast⟩
  · have hpos := hw.pos
    omega

end Parallel

end UsacSyscalls.Cipher
