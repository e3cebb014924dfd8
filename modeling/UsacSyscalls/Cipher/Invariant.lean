import UsacSyscalls.Lib.ParallelMap
import UsacSyscalls.Cipher.Outcome

/-!
# The invariant of a cipher call

`Inv` says at every program counter what holds of the state:

* up to `split` no worker exists and no block has been released (`Idle`);
* in the loops that start and await the threads (`Crew`) the workers walk the tiles of the file,
  and the data buffer is `data₀` with the key applied exactly where some worker has passed;
* at the cleanup labels the call has either failed before `kernel_write` (`Failed`) or written
  the whole of `data₀` under the key (`Written`).

`reach_inv` — every reachable state satisfies `Inv`, for every interleaving of the threads.
-/

set_option autoImplicit false

namespace UsacSyscalls.Cipher

open Lib.Run Lib.Ledger Lib.Tiling Lib.ParallelMap

section Stages

variable {Path : Type}

/-- No worker exists and no block has been released. -/
structure Idle (s : State Path) : Prop where
  workers : s.workers = []
  handed : s.handed = none
  kept : ∀ b, Op.release (.block b) ∉ s.trail

theorem Idle.of_eq {s s' : State Path} (h : Idle s) (hw : s'.workers = s.workers)
    (hh : s'.handed = s.handed) (ht : s'.trail = s.trail) : Idle s' :=
  ⟨by rw [hw, h.workers], by rw [hh, h.handed], fun b => by rw [ht]; exact h.kept b⟩

/-- Entries that release no block keep the call idle. -/
theorem Idle.append {s s' : State Path} (h : Idle s) (hw : s'.workers = s.workers)
    (hh : s'.handed = s.handed) (u : List (Op Resource)) (ht : s'.trail = s.trail ++ u)
    (hu : ∀ b, Op.release (.block b) ∉ u) : Idle s' :=
  ⟨by rw [hw, h.workers], by rw [hh, h.handed], fun b hb => by
    rw [ht, List.mem_append] at hb
    exact hb.elim (h.kept b) (hu b)⟩

/-- The lane a worker owns and how far it has got. -/
def Worker.lane (w : Worker) : Lane := ⟨w.fragment.startIdx, w.i, w.fragment.endIdx⟩

/-! ## A worker's step -/

theorem worker_eq (op : Mode) : op.worker = xorLoopStep := by
  cases op <;> rfl

/-- What a worker's step can do: one byte of its fragment, or `complete()`. -/
theorem workerStep_cases {op : Mode} {k : Nat} {s s' : State Path}
    (hs : workerStep op k s = some s') :
    ∃ w, s.workers[k]? = some w ∧ w.completed = false ∧
      ((w.i < w.fragment.endIdx ∧ s' = { s with
          workers := s.workers.set k { w with i := w.i + 1 }
          fileBuffer := s.fileBuffer.modify w.i
            (fun b => b ^^^ s.encryptionKey.getD (w.i % w.fragment.keyLength) 0) }) ∨
       (w.fragment.endIdx ≤ w.i ∧ s' = { s with
          workers := s.workers.set k { w with completed := true } })) := by
  unfold workerStep at hs
  rw [worker_eq] at hs
  split at hs
  · cases hs
  · rename_i w hw
    split at hs
    · cases hs
    · rename_i w' buffer hx
      cases hs
      unfold xorLoopStep at hx
      split at hx
      · cases hx
      · rename_i hc
        simp only [Bool.not_eq_true] at hc
        split at hx
        · rename_i hlt
          cases hx
          exact ⟨w, hw, hc, Or.inl ⟨hlt, rfl⟩⟩
        · rename_i hge
          cases hx
          exact ⟨w, hw, hc, Or.inr ⟨by omega, rfl⟩⟩

/-- The entries of the task list after worker `k`'s entry has changed. -/
theorem getElem?_set_cases {ws : List Worker} {k j : Nat} {w w' v : Worker}
    (hk : ws[k]? = some w) (hj : (ws.set k w')[j]? = some v) :
    (j = k ∧ v = w') ∨ (j ≠ k ∧ ws[j]? = some v) := by
  by_cases hjk : j = k
  · subst hjk
    have hlt := (List.getElem?_eq_some_iff.mp hk).1
    rw [List.getElem?_set_self hlt] at hj
    exact Or.inl ⟨rfl, (Option.some.inj hj).symm⟩
  · rw [List.getElem?_set_ne (Ne.symm hjk)] at hj
    exact Or.inr ⟨hjk, hj⟩

theorem workerStep_nil {op : Mode} {k : Nat} {s : State Path} (h : s.workers = []) :
    workerStep op k s = none := by
  simp [workerStep, h]

end Stages

section Inv

variable {Path : Type} [DecidableEq Path] (env : Env) (c : Call Path) (fs₀ : FS Path)

/-- The key is in its buffer. -/
structure HasKey (s : State Path) : Prop where
  idle : Idle s
  fs : s.fs = afterOpen env c fs₀
  keyLength : s.keyLength = keyLength₀ env c fs₀
  encryptionKey : s.encryptionKey = key₀ env c fs₀

/-- Both files are in their buffers. -/
structure HasData (s : State Path) : Prop extends HasKey env c fs₀ s where
  fileSize : s.fileSize = fileSize₀ env c fs₀
  fileBuffer : s.fileBuffer = data₀ env c fs₀

/-- The first `i` threads have been started and the rest of the call is intact. -/
structure Crew (i : Nat) (s : State Path) : Prop where
  ready : Ready env c fs₀
  pos : 0 < c.threadCount.toInt
  fs : s.fs = afterOpen env c fs₀
  handed : s.handed = none
  kept : ∀ b, Op.release (.block b) ∉ s.trail
  fileSize : s.fileSize = fileSize₀ env c fs₀
  keyLength : s.keyLength = keyLength₀ env c fs₀
  encryptionKey : s.encryptionKey = key₀ env c fs₀
  fragmentSize : s.fragmentSize = fileSize₀ env c fs₀ / c.threads
  extraBytes : s.extraBytes = fileSize₀ env c fs₀ % c.threads
  length : s.workers.length = i
  le : (i : Int) ≤ c.threadCount.toInt
  started : ∀ j < i, env.kthreadRun j = none
  fragment : ∀ (j : Nat) (w : Worker), s.workers[j]? = some w → w.fragment = fragment₀ env c fs₀ j
  ended : ∀ w ∈ s.workers, w.completed = true → w.i = w.fragment.endIdx
  data : Partial (keyed env c fs₀) (data₀ env c fs₀) s.fileBuffer (s.workers.map Worker.lane)

/-- The call failed before `kernel_write`. -/
structure Failed (s : State Path) : Prop where
  negative : s.retVal < 0
  handed : s.handed = none
  fs : (Copied env ∧ s.fs = afterOpen env c fs₀) ∨ (¬ Copied env ∧ s.fs = fs₀)
  crew : (¬ Ready env c fs₀ ∧ s.workers = []) ∨
    (Ready env c fs₀ ∧ ∃ j, FirstFailure env c j ∧ s.workers.length = j)

/-- The call got to `kernel_write`. -/
structure Written (s : State Path) : Prop where
  writesOut : WritesOut env c fs₀
  handed : s.handed = some (cipherText env c fs₀)
  retVal : s.retVal = toInt (count (env.kernelWrite (cipherText env c fs₀)))
  fs : s.fs = env.written (afterOpen env c fs₀) c.output (cipherText env c fs₀)
  completed : ∀ w ∈ s.workers, w.completed = true

def Settled (s : State Path) : Prop := Failed env c fs₀ s ∨ Written env c fs₀ s

/-- The invariant. -/
def Inv (s : State Path) : Prop :=
  match s.pc with
  | .copyPaths => Idle s ∧ s.fs = fs₀
  | .openInput => Idle s ∧ s.fs = fs₀ ∧ Copied env
  | .openOutput =>
    Idle s ∧ s.fs = fs₀ ∧ Copied env ∧ s.inputFile = env.openRead fs₀ .input c.input
  | .openKey =>
    Idle s ∧ s.fs = afterOpen env c fs₀ ∧ Copied env ∧
      s.inputFile = env.openRead fs₀ .input c.input ∧ s.outputFile = env.filpOpen .output
  | .checkFiles =>
    Idle s ∧ s.fs = afterOpen env c fs₀ ∧ Copied env ∧
      s.inputFile = env.openRead fs₀ .input c.input ∧ s.outputFile = env.filpOpen .output ∧
      s.keyFile = env.openRead (afterOpen env c fs₀) .key c.key
  | .sizeKey => Idle s ∧ s.fs = afterOpen env c fs₀ ∧ Opened env c fs₀
  | .allocKey =>
    Idle s ∧ s.fs = afterOpen env c fs₀ ∧ Opened env c fs₀ ∧
      s.keyLength = keyLength₀ env c fs₀ ∧ keyLength₀ env c fs₀ ≠ 0
  | .readKey =>
    Idle s ∧ s.fs = afterOpen env c fs₀ ∧ Opened env c fs₀ ∧
      s.keyLength = keyLength₀ env c fs₀ ∧ keyLength₀ env c fs₀ ≠ 0 ∧
      env.kmalloc .encryptionKey (keyLength₀ env c fs₀) = true ∧
      s.encryptionKey = env.fresh .encryptionKey (keyLength₀ env c fs₀)
  | .sizeInput => HasKey env c fs₀ s ∧ KeyLoaded env c fs₀
  | .allocData =>
    HasKey env c fs₀ s ∧ KeyLoaded env c fs₀ ∧
      s.fileSize = fileSize₀ env c fs₀ ∧ fileSize₀ env c fs₀ ≠ 0
  | .readInput =>
    HasKey env c fs₀ s ∧ KeyLoaded env c fs₀ ∧
      s.fileSize = fileSize₀ env c fs₀ ∧ fileSize₀ env c fs₀ ≠ 0 ∧
      env.kmalloc .fileBuffer (fileSize₀ env c fs₀) = true ∧
      s.fileBuffer = env.fresh .fileBuffer (fileSize₀ env c fs₀)
  | .allocLists => HasData env c fs₀ s ∧ Loaded env c fs₀
  | .split => HasData env c fs₀ s ∧ Ready env c fs₀
  | .spawn i => Crew env c fs₀ i s
  | .await i =>
    Crew env c fs₀ c.threads s ∧
      ∀ (j : Nat) (w : Worker), j < i → s.workers[j]? = some w → w.completed = true
  | .write => Crew env c fs₀ c.threads s ∧ ∀ w ∈ s.workers, w.completed = true
  | .fault => Ready env c fs₀ ∧ c.threadCount.toInt = 0 ∧ s.workers = [] ∧ s.handed = none
  | _ => Settled env c fs₀ s

variable {env c fs₀}

/-! ## The sequential part -/

/-- A jump to a cleanup label before any thread has been started. -/
theorem Failed.of_idle {s s' : State Path} (h : Idle s) (hw : s'.workers = s.workers)
    (hh : s'.handed = s.handed) (hneg : s'.retVal < 0) (hfs : s'.fs = afterOpen env c fs₀)
    (hc : Copied env) (hr : ¬ Ready env c fs₀) : Failed env c fs₀ s' :=
  ⟨hneg, by rw [hh, h.handed], Or.inl ⟨hc, hfs⟩, Or.inl ⟨hr, by rw [hw, h.workers]⟩⟩

theorem copyPaths_inv {t : Texts} {s : State Path} (h : Idle s ∧ s.fs = fs₀) :
    Inv env c fs₀ (copyPaths t env s) := by
  obtain ⟨hi, hfs⟩ := h
  have hok : ((env.strndupUser .input).isNone && (env.strndupUser .output).isNone &&
      (env.strndupUser .key).isNone) = true ↔ Copied env := by
    simp only [Bool.and_eq_true, Option.isNone_iff_eq_none, and_assoc]
    exact ⟨fun h f => by cases f; exacts [h.1, h.2.1, h.2.2], fun h => ⟨h _, h _, h _⟩⟩
  unfold copyPaths
  simp only
  split
  · rename_i hc
    refine ⟨hi.append rfl rfl _ rfl ?_, hfs, hok.mp hc⟩
    intro b
    simp [release_not_mem_attempt]
  · rename_i hc
    have hnc : ¬ Copied env := fun h => hc (hok.mpr h)
    exact Or.inl ⟨EFAULT.ret_neg, hi.handed, Or.inr ⟨hnc, hfs⟩,
      Or.inl ⟨fun hr => hnc hr.copied, hi.workers⟩⟩

theorem openInput_inv {s : State Path} (h : Idle s ∧ s.fs = fs₀ ∧ Copied env) :
    Inv env c fs₀ (openInput env c s) := by
  obtain ⟨hi, hfs, hc⟩ := h
  exact ⟨hi.append rfl rfl _ rfl fun b => release_not_mem_attempt _ _ _, hfs, hc, by
    simp only [openInput, hfs]⟩

theorem openOutput_inv {s : State Path}
    (h : Idle s ∧ s.fs = fs₀ ∧ Copied env ∧ s.inputFile = env.openRead fs₀ .input c.input) :
    Inv env c fs₀ (openOutput env c s) := by
  obtain ⟨hi, hfs, hc, hin⟩ := h
  exact ⟨hi.append rfl rfl _ rfl fun b => release_not_mem_attempt _ _ _, by
    simp only [openOutput, hfs]; rfl, hc, hin, rfl⟩

theorem openKey_inv {s : State Path}
    (h : Idle s ∧ s.fs = afterOpen env c fs₀ ∧ Copied env ∧
      s.inputFile = env.openRead fs₀ .input c.input ∧ s.outputFile = env.filpOpen .output) :
    Inv env c fs₀ (openKey env c s) := by
  obtain ⟨hi, hfs, hc, hin, hout⟩ := h
  exact ⟨hi.append rfl rfl _ rfl fun b => release_not_mem_attempt _ _ _, hfs, hc, hin, hout, by
    simp only [openKey, hfs]⟩

theorem checkFiles_inv {t : Texts} {s : State Path}
    (h : Idle s ∧ s.fs = afterOpen env c fs₀ ∧ Copied env ∧
      s.inputFile = env.openRead fs₀ .input c.input ∧ s.outputFile = env.filpOpen .output ∧
      s.keyFile = env.openRead (afterOpen env c fs₀) .key c.key) :
    Inv env c fs₀ (checkFiles t s) := by
  obtain ⟨hi, hfs, hc, hin, hout, hkey⟩ := h
  unfold checkFiles
  split
  · rename_i e he
    refine Or.inl (Failed.of_idle hi rfl rfl e.ret_neg hfs hc fun hr => ?_)
    rw [hin, hr.input] at he; cases he
  · rename_i e _ he
    refine Or.inl (Failed.of_idle hi rfl rfl e.ret_neg hfs hc fun hr => ?_)
    rw [hout, hr.output] at he; cases he
  · rename_i e _ _ he
    refine Or.inl (Failed.of_idle hi rfl rfl e.ret_neg hfs hc fun hr => ?_)
    rw [hkey, hr.key] at he; cases he
  · rename_i h1 h2 h3
    exact ⟨hi.of_eq rfl rfl rfl, hfs, hc, hin ▸ h1, hout ▸ h2, hkey ▸ h3⟩

theorem sizeKey_inv {t : Texts} {s : State Path}
    (h : Idle s ∧ s.fs = afterOpen env c fs₀ ∧ Opened env c fs₀) :
    Inv env c fs₀ (sizeKey t env c s) := by
  obtain ⟨hi, hfs, ho⟩ := h
  have hn : env.iSizeRead .key (contents s.fs c.key) = keyLength₀ env c fs₀ := by rw [hfs]; rfl
  unfold sizeKey
  simp only [hn]
  split
  · rename_i h0
    exact Or.inl (Failed.of_idle hi rfl rfl EINVAL.ret_neg hfs ho.copied fun hr => hr.keySize h0)
  · rename_i h0
    exact ⟨hi.of_eq rfl rfl rfl, hfs, ho, rfl, h0⟩

theorem allocKey_inv {t : Texts} {s : State Path}
    (h : Idle s ∧ s.fs = afterOpen env c fs₀ ∧ Opened env c fs₀ ∧
      s.keyLength = keyLength₀ env c fs₀ ∧ keyLength₀ env c fs₀ ≠ 0) :
    Inv env c fs₀ (allocKey t env s) := by
  obtain ⟨hi, hfs, ho, hlen, h0⟩ := h
  unfold allocKey
  simp only [hlen]
  split
  · rename_i hm
    exact ⟨hi.append rfl rfl _ rfl fun b => by simp, hfs, ho, rfl, h0, hm, rfl⟩
  · rename_i hm
    exact Or.inl (Failed.of_idle hi rfl rfl ENOMEM.ret_neg hfs ho.copied
      fun hr => hm hr.keyMemory)

theorem readKey_inv {t : Texts} {s : State Path}
    (h : Idle s ∧ s.fs = afterOpen env c fs₀ ∧ Opened env c fs₀ ∧
      s.keyLength = keyLength₀ env c fs₀ ∧ keyLength₀ env c fs₀ ≠ 0 ∧
      env.kmalloc .encryptionKey (keyLength₀ env c fs₀) = true ∧
      s.encryptionKey = env.fresh .encryptionKey (keyLength₀ env c fs₀)) :
    Inv env c fs₀ (readKey t env c s) := by
  obtain ⟨hi, hfs, ho, hlen, h0, hm, hbuf⟩ := h
  have hr : env.kernelRead .key (contents s.fs c.key) s.keyLength = keyRead₀ env c fs₀ := by
    rw [hfs, hlen]; rfl
  unfold readKey
  simp only [hr]
  split
  · rename_i hneg
    exact Or.inl (Failed.of_idle hi rfl rfl hneg hfs ho.copied
      fun hready => absurd hneg (by have := hready.keyRead; omega))
  · rename_i hneg
    exact ⟨⟨hi.of_eq rfl rfl rfl, hfs, hlen, by simp only [hbuf]; rfl⟩, ho, h0, hm, by omega⟩

theorem sizeInput_inv {t : Texts} {s : State Path}
    (h : HasKey env c fs₀ s ∧ KeyLoaded env c fs₀) : Inv env c fs₀ (sizeInput t env c s) := by
  obtain ⟨hk, hl⟩ := h
  have hn : env.iSizeRead .input (contents s.fs c.input) = fileSize₀ env c fs₀ := by
    rw [hk.fs]; rfl
  unfold sizeInput
  simp only [hn]
  split
  · rename_i h0
    exact Or.inl (Failed.of_idle hk.idle rfl rfl EINVAL.ret_neg hk.fs hl.copied
      fun hr => hr.dataSize h0)
  · rename_i h0
    exact ⟨⟨hk.idle.of_eq rfl rfl rfl, hk.fs, hk.keyLength, hk.encryptionKey⟩, hl, rfl, h0⟩

theorem allocData_inv {t : Texts} {s : State Path}
    (h : HasKey env c fs₀ s ∧ KeyLoaded env c fs₀ ∧ s.fileSize = fileSize₀ env c fs₀ ∧
      fileSize₀ env c fs₀ ≠ 0) : Inv env c fs₀ (allocData t env s) := by
  obtain ⟨hk, hl, hsize, h0⟩ := h
  unfold allocData
  simp only [hsize]
  split
  · rename_i hm
    exact ⟨⟨hk.idle.append rfl rfl _ rfl fun b => by simp, hk.fs, hk.keyLength, hk.encryptionKey⟩,
      hl, rfl, h0, hm, rfl⟩
  · rename_i hm
    exact Or.inl (Failed.of_idle hk.idle rfl rfl ENOMEM.ret_neg hk.fs hl.copied
      fun hr => hm hr.dataMemory)

theorem readInput_inv {t : Texts} {s : State Path}
    (h : HasKey env c fs₀ s ∧ KeyLoaded env c fs₀ ∧ s.fileSize = fileSize₀ env c fs₀ ∧
      fileSize₀ env c fs₀ ≠ 0 ∧ env.kmalloc .fileBuffer (fileSize₀ env c fs₀) = true ∧
      s.fileBuffer = env.fresh .fileBuffer (fileSize₀ env c fs₀)) :
    Inv env c fs₀ (readInput t env c s) := by
  obtain ⟨hk, hl, hsize, h0, hm, hbuf⟩ := h
  have hr : env.kernelRead .input (contents s.fs c.input) s.fileSize = dataRead₀ env c fs₀ := by
    rw [hk.fs, hsize]; rfl
  unfold readInput
  simp only [hr]
  split
  · rename_i hneg
    exact Or.inl (Failed.of_idle hk.idle rfl rfl hneg hk.fs hl.copied
      fun hready => absurd hneg (by have := hready.dataRead; omega))
  · rename_i hneg
    exact ⟨⟨⟨hk.idle.of_eq rfl rfl rfl, hk.fs, hk.keyLength, hk.encryptionKey⟩, hsize, by
      simp only [hbuf]; rfl⟩, hl, h0, hm, by omega⟩

theorem allocLists_inv {t : Texts} {s : State Path} (h : HasData env c fs₀ s ∧ Loaded env c fs₀) :
    Inv env c fs₀ (allocLists t env c s) := by
  obtain ⟨hd, hl⟩ := h
  unfold allocLists
  simp only
  split
  · rename_i hok
    simp only [Bool.and_eq_true] at hok
    refine ⟨⟨⟨hd.idle.append rfl rfl _ rfl fun b => ?_, hd.fs, hd.keyLength, hd.encryptionKey⟩,
      hd.fileSize, hd.fileBuffer⟩, hl, fun b => ?_⟩
    · simp [release_not_mem_attempt]
    · cases b
      exacts [rfl, rfl, hok.1.1, hok.1.2, hok.2]
  · rename_i hok
    refine Or.inl (Failed.of_idle hd.idle rfl rfl ENOMEM.ret_neg hd.fs hl.copied fun hr => hok ?_)
    simp [hr.lists]

theorem split_inv {s : State Path} (h : HasData env c fs₀ s ∧ Ready env c fs₀) :
    Inv env c fs₀ (split c s) := by
  obtain ⟨hd, hr⟩ := h
  have hn := toSizeT_threads hr.nonneg
  have hnonneg := hr.nonneg
  unfold split
  simp only [hn]
  split
  · rename_i h0
    unfold Call.threads at h0
    exact ⟨hr, by omega, hd.idle.workers, hd.idle.handed⟩
  · rename_i h0
    unfold Call.threads at h0
    refine ⟨hr, by omega, hd.fs, hd.idle.handed, hd.idle.kept, hd.fileSize, hd.keyLength,
      hd.encryptionKey, by simp only [hd.fileSize], by simp only [hd.fileSize],
      by simp only [hd.idle.workers, List.length_nil], by omega, by omega,
      by simp [hd.idle.workers], by simp [hd.idle.workers], ?_⟩
    simp only [hd.idle.workers, hd.fileBuffer]
    exact Partial.start _ _

/-! ## The threads -/

theorem lane_hi (w : Worker) : w.lane.hi = w.fragment.endIdx := rfl

/-- Starting thread `i` puts it on the tile after those of the others. -/
theorem spawn_inv {t : Texts} {i : Nat} {s : State Path} (h : Crew env c fs₀ i s) :
    Inv env c fs₀ (spawn t env c i s) := by
  unfold spawn
  split
  · rename_i hlt
    split
    · rename_i e he
      refine Or.inl ⟨e.ret_neg, h.handed, Or.inl ⟨h.ready.copied, h.fs⟩,
        Or.inr ⟨h.ready, i, ⟨hlt, by simp [he], h.started⟩, h.length⟩⟩
    · rename_i he
      have hfrag := fragmentOf_eq h.fileSize h.keyLength h.fragmentSize h.extraBytes
        h.ready.fileSize_le hlt
      have hit : i < c.threads := by unfold Call.threads; omega
      refine ⟨h.ready, h.pos, h.fs, h.handed, h.kept, h.fileSize, h.keyLength, h.encryptionKey,
        h.fragmentSize, h.extraBytes, by simp [h.length], by omega, ?_, ?_, ?_, ?_⟩
      · intro j hj
        by_cases hji : j = i
        · rw [hji, he]
        · exact h.started j (by omega)
      · intro j w hj
        simp only [hfrag, List.getElem?_append, h.length] at hj
        split at hj
        · exact h.fragment j w hj
        · rename_i hge
          rw [List.getElem?_singleton] at hj
          split at hj
          · cases hj
            rw [show j = i by omega]
          · cases hj
      · intro w hw hc
        simp only [List.mem_append, List.mem_singleton] at hw
        rcases hw with hw | rfl
        · exact h.ended w hw hc
        · simp at hc
      · simp only [hfrag, List.map_append, List.map_cons, List.map_nil]
        refine h.data.spawn (tileLo_le_tileHi _ _ i) fun l hl => ?_
        obtain ⟨w, hw, rfl⟩ := List.mem_map.mp hl
        obtain ⟨j, hj⟩ := List.mem_iff_getElem?.mp hw
        rw [lane_hi, h.fragment j w hj]
        have hjlt := (List.getElem?_eq_some_iff.mp hj).1
        exact tileHi_le_tileLo (by rw [h.length] at hjlt; exact hjlt) hit
  · rename_i hge
    have hi : i = c.threads := by
      have := h.le
      unfold Call.threads
      omega
    subst hi
    exact ⟨⟨h.ready, h.pos, h.fs, h.handed, h.kept, h.fileSize, h.keyLength, h.encryptionKey,
      h.fragmentSize, h.extraBytes, h.length, h.le, h.started, h.fragment, h.ended, h.data⟩,
      fun j _ hj => absurd hj (by omega)⟩

theorem await_inv {i : Nat} {s s' : State Path}
    (h : Crew env c fs₀ c.threads s ∧
      ∀ (j : Nat) (w : Worker), j < i → s.workers[j]? = some w → w.completed = true)
    (hs : await c i s = some s') : Inv env c fs₀ s' := by
  obtain ⟨h, hdone⟩ := h
  have hcrew : ∀ p, Crew env c fs₀ c.threads { s with pc := p } := fun p =>
    ⟨h.ready, h.pos, h.fs, h.handed, h.kept, h.fileSize, h.keyLength, h.encryptionKey,
      h.fragmentSize, h.extraBytes, h.length, h.le, h.started, h.fragment, h.ended, h.data⟩
  unfold await at hs
  split at hs
  · split at hs
    · rename_i w hw
      split at hs
      · rename_i hc
        cases hs
        refine ⟨hcrew _, fun j w' hj hw' => ?_⟩
        by_cases hji : j = i
        · subst hji
          rw [hw] at hw'
          cases hw'
          exact hc
        · exact hdone j w' (by omega) hw'
      · cases hs
    · cases hs
  · rename_i hge
    cases hs
    refine ⟨hcrew _, fun w hw => ?_⟩
    obtain ⟨j, hj⟩ := List.mem_iff_getElem?.mp hw
    have hjlt := (List.getElem?_eq_some_iff.mp hj).1
    rw [h.length] at hjlt
    exact hdone j w (by unfold Call.threads at hjlt; omega) hj

/-- **Once every thread has completed, the buffer holds the cipher text.** -/
theorem Crew.fileBuffer_eq {s : State Path} (h : Crew env c fs₀ c.threads s)
    (hdone : ∀ w ∈ s.workers, w.completed = true) : s.fileBuffer = cipherText env c fs₀ := by
  refine h.data.eq_mapIdx fun n hn => ?_
  rw [data₀_length] at hn
  have hpos := h.pos
  obtain ⟨j, hj, hlo, hhi⟩ := exists_tile (m := c.threads) (by unfold Call.threads; omega) hn
  have hjlt : j < s.workers.length := by rw [h.length]; exact hj
  have hget : s.workers[j]? = some s.workers[j] := List.getElem?_eq_getElem hjlt
  have hmem : s.workers[j] ∈ s.workers := List.getElem_mem hjlt
  have hfrag := h.fragment j _ hget
  refine ⟨s.workers[j].lane, List.mem_map_of_mem hmem, ?_, ?_⟩
  · show s.workers[j].fragment.startIdx ≤ n
    rw [hfrag]; exact hlo
  · show n < s.workers[j].i
    rw [h.ended _ hmem (hdone _ hmem), hfrag]; exact hhi

theorem write_inv {t : Texts} {s : State Path}
    (h : Crew env c fs₀ c.threads s ∧ ∀ w ∈ s.workers, w.completed = true) :
    Inv env c fs₀ (write t env c s) := by
  obtain ⟨h, hdone⟩ := h
  have hbuf := h.fileBuffer_eq hdone
  have hstarted : ∀ j : Nat, (j : Int) < c.threadCount.toInt → env.kthreadRun j = none :=
    fun j hj => h.started j (by unfold Call.threads; omega)
  have hw : WritesOut env c fs₀ := ⟨h.ready, h.pos, hstarted⟩
  unfold write
  simp only [hbuf, h.fs]
  split <;> exact Or.inr ⟨hw, rfl, rfl, rfl, hdone⟩

/-! ## The cleanup labels -/

theorem giveBack_settled {rs : List Resource} {next : Pc} {s : State Path}
    (h : Settled env c fs₀ s) : Settled env c fs₀ (giveBack rs next s) :=
  h.elim (fun h => Or.inl ⟨h.negative, h.handed, h.fs, h.crew⟩)
    (fun h => Or.inr ⟨h.writesOut, h.handed, h.retVal, h.fs, h.completed⟩)

/-! ## Every step -/

theorem mainStep_inv {t : Texts} {s s' : State Path} (h : Inv env c fs₀ s)
    (hs : mainStep t env c s = some s') : Inv env c fs₀ s' := by
  unfold mainStep at hs
  unfold Inv at h
  cases hpc : s.pc <;> simp only [hpc, Option.some.injEq, reduceCtorEq] at h hs
  case await i => exact await_inv h hs
  all_goals subst hs
  case copyPaths => exact copyPaths_inv h
  case openInput => exact openInput_inv h
  case openOutput => exact openOutput_inv h
  case openKey => exact openKey_inv h
  case checkFiles => exact checkFiles_inv h
  case sizeKey => exact sizeKey_inv h
  case allocKey => exact allocKey_inv h
  case readKey => exact readKey_inv h
  case sizeInput => exact sizeInput_inv h
  case allocData => exact allocData_inv h
  case readInput => exact readInput_inv h
  case allocLists => exact allocLists_inv h
  case split => exact split_inv h
  case spawn i => exact spawn_inv h
  case write => exact write_inv h
  all_goals exact giveBack_settled h

/-- **A worker's step keeps the crew in order**, and no completed worker starts again. -/
theorem Crew.workerStep {op : Mode} {k i : Nat} {s s' : State Path} (h : Crew env c fs₀ i s)
    (hs : workerStep op k s = some s') :
    Crew env c fs₀ i s' ∧ s'.pc = s.pc ∧
      ∀ (j : Nat) (v : Worker), s.workers[j]? = some v → v.completed = true → s'.workers[j]? = some v := by
  obtain ⟨w, hw, hc, hstep⟩ := workerStep_cases hs
  have hlt := (List.getElem?_eq_some_iff.mp hw).1
  have hmem := List.mem_of_getElem? hw
  have hlane : (s.workers.map Worker.lane)[k]? = some w.lane := by rw [List.getElem?_map, hw]; rfl
  have hother : ∀ w' (j : Nat) (v : Worker), s.workers[j]? = some v → v.completed = true →
      (s.workers.set k w')[j]? = some v := by
    intro w' j v hj hv
    have hjk : k ≠ j := by
      rintro rfl
      rw [hw] at hj
      cases hj
      rw [hc] at hv
      cases hv
    rw [List.getElem?_set_ne hjk]
    exact hj
  rcases hstep with ⟨hi, rfl⟩ | ⟨hi, rfl⟩
  · refine ⟨⟨h.ready, h.pos, h.fs, h.handed, h.kept, h.fileSize, h.keyLength, h.encryptionKey,
      h.fragmentSize, h.extraBytes, by simp [h.length], h.le, h.started, ?_, ?_, ?_⟩, rfl,
      hother _⟩
    · intro j v hj
      rcases getElem?_set_cases hw hj with ⟨rfl, rfl⟩ | ⟨_, hj⟩
      · exact h.fragment j w hw
      · exact h.fragment j v hj
    · intro v hv hcv
      rcases List.mem_or_eq_of_mem_set hv with hv | rfl
      · exact h.ended v hv hcv
      · rw [hc] at hcv; cases hcv
    · have hkey : (fun b => b ^^^ s.encryptionKey.getD (w.i % w.fragment.keyLength) 0) =
          keyed env c fs₀ w.i := by
        rw [h.encryptionKey, h.fragment k w hw]; rfl
      have hadv := h.data.advance hlane hi
      simp only [hkey, List.map_set]
      exact hadv
  · refine ⟨⟨h.ready, h.pos, h.fs, h.handed, h.kept, h.fileSize, h.keyLength, h.encryptionKey,
      h.fragmentSize, h.extraBytes, by simp [h.length], h.le, h.started, ?_, ?_, ?_⟩, rfl,
      hother _⟩
    · intro j v hj
      rcases getElem?_set_cases hw hj with ⟨rfl, rfl⟩ | ⟨_, hj⟩
      · exact h.fragment j w hw
      · exact h.fragment j v hj
    · intro v hv hcv
      rcases List.mem_or_eq_of_mem_set hv with hv | rfl
      · exact h.ended v hv hcv
      · have hb := h.data.bounds _ (List.mem_of_getElem? hlane)
        simp only [Worker.lane] at hb
        simp only
        omega
    · simp only [List.map_set]
      have hsame : (s.workers.map Worker.lane).set k (Worker.lane { w with completed := true }) =
          s.workers.map Worker.lane := by
        apply List.ext_getElem?
        intro j
        by_cases hjk : k = j
        · subst hjk
          rw [List.getElem?_set_self (by simpa using hlt), hlane]
          rfl
        · rw [List.getElem?_set_ne hjk]
      rw [hsame]
      exact h.data

theorem Settled.workerStep {op : Mode} {k : Nat} {s s' : State Path} (h : Settled env c fs₀ s)
    (hs : workerStep op k s = some s') : Settled env c fs₀ s' := by
  obtain ⟨w, hw, hc, hstep⟩ := workerStep_cases hs
  rcases h with h | h
  · -- the threads that were started keep running after the failure
    have hcrew : ∀ w', (s.workers = [] → (s.workers.set k w') = []) ∧
        (s.workers.set k w').length = s.workers.length := fun w' => ⟨by simp, by simp⟩
    rcases hstep with ⟨_, rfl⟩ | ⟨_, rfl⟩
    all_goals
      refine Or.inl ⟨h.negative, h.handed, h.fs, ?_⟩
      rcases h.crew with ⟨hr, he⟩ | ⟨hr, j, hj, hl⟩
      · exact Or.inl ⟨hr, (hcrew _).1 he⟩
      · exact Or.inr ⟨hr, j, hj, (hcrew _).2.trans hl⟩
  · have := h.completed w (List.mem_of_getElem? hw)
    rw [hc] at this
    cases this

theorem workerStep_inv {op : Mode} {k : Nat} {s s' : State Path} (h : Inv env c fs₀ s)
    (hs : workerStep op k s = some s') : Inv env c fs₀ s' := by
  have hpc' : s'.pc = s.pc := by
    obtain ⟨w, _, _, ⟨_, rfl⟩ | ⟨_, rfl⟩⟩ := workerStep_cases hs <;> rfl
  have hne : s.workers ≠ [] := fun he => by rw [workerStep_nil he] at hs; cases hs
  unfold Inv at h ⊢
  cases hpc : s.pc <;> simp only [hpc, hpc'] at h ⊢
  case copyPaths | openInput | openOutput | openKey | checkFiles | sizeKey | allocKey | readKey =>
    exact absurd h.1.workers hne
  case sizeInput | allocData | readInput => exact absurd h.1.idle.workers hne
  case allocLists | split => exact absurd h.1.idle.workers hne
  case fault => exact absurd h.2.2.1 hne
  case spawn i => exact (h.workerStep hs).1
  case await i =>
    obtain ⟨hcrew, hdone⟩ := h
    obtain ⟨hcrew', -, hkeep⟩ := hcrew.workerStep hs
    refine ⟨hcrew', fun j w hj hw => ?_⟩
    have hlt := (List.getElem?_eq_some_iff.mp hw).1
    rw [hcrew'.length, ← hcrew.length] at hlt
    have hold : s.workers[j]? = some s.workers[j] := List.getElem?_eq_getElem hlt
    have hnew := hkeep j _ hold (hdone j _ hj hold)
    rw [hw] at hnew
    cases hnew
    exact hdone j _ hj hold
  case write =>
    obtain ⟨w, hw, hc, _⟩ := workerStep_cases hs
    have := h.2 w (List.mem_of_getElem? hw)
    rw [hc] at this
    cases this
  all_goals exact h.workerStep hs

theorem step_inv {op : Mode} {a : Actor} {s s' : State Path} (h : Inv env c fs₀ s)
    (hs : step op env c a s = some s') : Inv env c fs₀ s' := by
  cases a with
  | main => exact mainStep_inv h hs
  | worker k => exact workerStep_inv h hs

theorem init_inv (env : Env) (c : Call Path) (fs₀ : FS Path) : Inv env c fs₀ (State.init fs₀) :=
  ⟨⟨rfl, rfl, fun _ h => by cases h⟩, rfl⟩

/-- **Every reachable state satisfies the invariant**, whatever the interleaving. -/
theorem reach_inv {op : Mode} {s : State Path} (h : Reach (step op env c) (State.init fs₀) s) :
    Inv env c fs₀ s :=
  h.invariant (init_inv env c fs₀) fun _ _ _ hi hs => step_inv hi hs

end Inv

end UsacSyscalls.Cipher
