import UsacSyscalls.Cipher.Invariant

/-!
# Every run of a cipher call ends

* `mainStep_cases` — what a step of the main thread can do: empty the output file, start a thread,
  write, or nothing that another thread or call could see.
* `Pc.rank` — how far the main thread is from its end; `workLeft` — the steps the workers have
  left.  The main thread's steps decrease the first, the workers' steps the second.
* `terminal_cases` — the main thread never waits for a worker that cannot move, so a run only
  stops at the end of the call, or at the division by zero.
* `call_ensures` — the two together, with the invariant.
-/

set_option autoImplicit false

namespace UsacSyscalls.Cipher

open Lib.Run

section Measure

variable {Path : Type}

/-- The distance of a statement from the end of a call with `n` threads. -/
def Pc.rank (n : Nat) : Pc → Nat
  | .done => 0
  | .fault => 0
  | .freeMemory => 1
  | .exit => 2
  | .closeInputFile => 3
  | .closeOutputFile => 4
  | .closeKeyFile => 5
  | .freeEncryptionKey => 6
  | .freeFileBuffer => 7
  | .freeFragmentList => 8
  | .freeTaskList => 9
  | .freeThreadList => 10
  | .write => 11
  | .await i => 12 + (n - i)
  | .spawn i => 13 + n + (n - i)
  | .split => 14 + 2 * n
  | .allocLists => 15 + 2 * n
  | .readInput => 16 + 2 * n
  | .allocData => 17 + 2 * n
  | .sizeInput => 18 + 2 * n
  | .readKey => 19 + 2 * n
  | .allocKey => 20 + 2 * n
  | .sizeKey => 21 + 2 * n
  | .checkFiles => 22 + 2 * n
  | .openKey => 23 + 2 * n
  | .openOutput => 24 + 2 * n
  | .openInput => 25 + 2 * n
  | .copyPaths => 26 + 2 * n

/-- The steps a worker has left: the bytes of its fragment and `complete()`. -/
def Worker.left (w : Worker) : Nat := if w.completed then 0 else w.fragment.endIdx - w.i + 1

def workLeft (ws : List Worker) : Nat := (ws.map Worker.left).sum

theorem workLeft_set_lt : ∀ {ws : List Worker} {k : Nat} {w w' : Worker}, ws[k]? = some w →
    w'.left < w.left → workLeft (ws.set k w') < workLeft ws
  | [], _, _, _, h, _ => by simp at h
  | v :: ws, 0, w, w', h, hlt => by
    simp only [List.getElem?_cons_zero, Option.some.injEq] at h
    subst h
    simp only [workLeft, List.set_cons_zero, List.map_cons, List.sum_cons]
    omega
  | v :: ws, k + 1, w, w', h, hlt => by
    rw [List.getElem?_cons_succ] at h
    have := workLeft_set_lt h hlt
    simp only [workLeft, List.set_cons_succ, List.map_cons, List.sum_cons] at this ⊢
    omega

theorem workerStep_left {op : Mode} {k : Nat} {s s' : State Path}
    (hs : workerStep op k s = some s') :
    s'.pc = s.pc ∧ workLeft s'.workers < workLeft s.workers := by
  obtain ⟨w, hw, hc, ⟨hi, rfl⟩ | ⟨hi, rfl⟩⟩ := workerStep_cases hs
  · refine ⟨rfl, workLeft_set_lt hw ?_⟩
    simp only [Worker.left, hc, Bool.false_eq_true, if_false]
    omega
  · refine ⟨rfl, workLeft_set_lt hw ?_⟩
    simp [Worker.left, hc]

/-- A worker that has not completed can move. -/
theorem workerStep_isSome {op : Mode} {k : Nat} {s : State Path} {w : Worker}
    (hw : s.workers[k]? = some w) (hc : w.completed = false) : workerStep op k s ≠ none := by
  intro h
  simp only [workerStep, hw, worker_eq, xorLoopStep, hc] at h
  by_cases hi : w.i < w.fragment.endIdx <;> simp [hi] at h

end Measure

/-! ## What a step can do -/

section Aside

variable {Path : Type} {env : Env} {c : Call Path}

/-- A step that touches no file and no thread: it keeps what the call has handed over, and with
    four exceptions also the data buffer and the return value. -/
structure Aside (env : Env) (c : Call Path) (s s' : State Path) : Prop where
  fs : s'.fs = s.fs
  workers : s'.workers = s.workers
  handed : s'.handed = s.handed
  fileBuffer : s'.fileBuffer = s.fileBuffer ∨ s.pc = .allocData ∨ s.pc = .readInput
  retVal : s'.retVal = s.retVal ∨ (∃ e : Errno, s'.retVal = e.ret) ∨
    (s.pc = .readKey ∧ s'.retVal =
      toInt (readCount (env.kernelRead .key (contents s.fs c.key) s.keyLength))) ∨
    (s.pc = .readInput ∧ s'.retVal =
      toInt (readCount (env.kernelRead .input (contents s.fs c.input) s.fileSize)))

theorem Aside.of_eq {s s' : State Path} (hfs : s'.fs = s.fs) (hw : s'.workers = s.workers)
    (hh : s'.handed = s.handed) (hb : s'.fileBuffer = s.fileBuffer) (hr : s'.retVal = s.retVal) :
    Aside env c s s' :=
  ⟨hfs, hw, hh, Or.inl hb, Or.inl hr⟩

/-- A step that gives up with an error number. -/
theorem Aside.of_errno {s s' : State Path} (e : Errno) (hfs : s'.fs = s.fs)
    (hw : s'.workers = s.workers) (hh : s'.handed = s.handed) (hb : s'.fileBuffer = s.fileBuffer)
    (hr : s'.retVal = e.ret) : Aside env c s s' :=
  ⟨hfs, hw, hh, Or.inl hb, Or.inr (Or.inl ⟨e, hr⟩)⟩

theorem readKey_aside {t : Texts} {s : State Path} (hpc : s.pc = .readKey) :
    Aside env c s (readKey t env c s) := by
  unfold readKey
  dsimp only
  split <;> exact ⟨rfl, rfl, rfl, Or.inl rfl, Or.inr (Or.inr (Or.inl ⟨hpc, rfl⟩))⟩

theorem readInput_aside {t : Texts} {s : State Path} (hpc : s.pc = .readInput) :
    Aside env c s (readInput t env c s) := by
  unfold readInput
  dsimp only
  split <;> exact ⟨rfl, rfl, rfl, Or.inr (Or.inr hpc), Or.inr (Or.inr (Or.inr ⟨hpc, rfl⟩))⟩

theorem allocData_aside {t : Texts} {s : State Path} (hpc : s.pc = .allocData) :
    Aside env c s (allocData t env s) := by
  unfold allocData
  split
  · exact ⟨rfl, rfl, rfl, Or.inr (Or.inl hpc), Or.inl rfl⟩
  · exact .of_errno ENOMEM rfl rfl rfl rfl rfl

theorem await_aside {i : Nat} {s s' : State Path} (hs : await c i s = some s') :
    Aside env c s s' := by
  unfold await at hs
  split at hs
  · split at hs
    · split at hs
      · cases hs; exact .of_eq rfl rfl rfl rfl rfl
      · cases hs
    · cases hs
  · cases hs; exact .of_eq rfl rfl rfl rfl rfl

@[simp] theorem spawn_fs (t : Texts) (i : Nat) (s : State Path) :
    (spawn t env c i s).fs = s.fs := by
  unfold spawn; split <;> [split; skip] <;> rfl

@[simp] theorem spawn_handed (t : Texts) (i : Nat) (s : State Path) :
    (spawn t env c i s).handed = s.handed := by
  unfold spawn; split <;> [split; skip] <;> rfl

end Aside

section Runs

variable {Path : Type} [DecidableEq Path] {env : Env} {c : Call Path} {fs₀ : FS Path}

/-- **What a step of the main thread can do**: empty the output file, start a thread, write, or
    nothing that another thread or call could see. -/
theorem mainStep_cases {t : Texts} {s s' : State Path} (hs : mainStep t env c s = some s') :
    (s.pc = .openOutput ∧ s' = openOutput env c s) ∨
      (∃ i, s.pc = .spawn i ∧ s' = spawn t env c i s) ∨
      (s.pc = .write ∧ s' = write t env c s) ∨ Aside env c s s' := by
  unfold mainStep at hs
  cases hpc : s.pc <;> simp only [hpc, Option.some.injEq, reduceCtorEq] at hs
  case openOutput => exact Or.inl ⟨rfl, hs.symm⟩
  case spawn i => exact Or.inr (Or.inl ⟨i, rfl, hs.symm⟩)
  case write => exact Or.inr (Or.inr (Or.inl ⟨rfl, hs.symm⟩))
  all_goals refine Or.inr (Or.inr (Or.inr ?_))
  case await i => exact await_aside hs
  all_goals subst hs
  case readKey => exact readKey_aside hpc
  case readInput => exact readInput_aside hpc
  case allocData => exact allocData_aside hpc
  case copyPaths =>
    unfold copyPaths
    dsimp only
    split
    · exact .of_eq rfl rfl rfl rfl rfl
    · exact .of_errno EFAULT rfl rfl rfl rfl rfl
  case checkFiles =>
    unfold checkFiles
    split
    · rename_i e _; exact .of_errno e rfl rfl rfl rfl rfl
    · rename_i e _ _; exact .of_errno e rfl rfl rfl rfl rfl
    · rename_i e _ _ _; exact .of_errno e rfl rfl rfl rfl rfl
    · exact .of_eq rfl rfl rfl rfl rfl
  case sizeKey | sizeInput =>
    simp only [sizeKey, sizeInput]
    split
    · exact .of_errno EINVAL rfl rfl rfl rfl rfl
    · exact .of_eq rfl rfl rfl rfl rfl
  case allocKey =>
    unfold allocKey
    split
    · exact .of_eq rfl rfl rfl rfl rfl
    · exact .of_errno ENOMEM rfl rfl rfl rfl rfl
  case allocLists =>
    unfold allocLists
    dsimp only
    split
    · exact .of_eq rfl rfl rfl rfl rfl
    · exact .of_errno ENOMEM rfl rfl rfl rfl rfl
  case split =>
    unfold split
    dsimp only
    split <;> exact .of_eq rfl rfl rfl rfl rfl
  all_goals exact .of_eq rfl rfl rfl rfl rfl

/-! ## The fields after the write -/

section Fields

variable (t : Texts) (env : Env) (c : Call Path) (s : State Path)

@[simp] theorem write_fs : (write t env c s).fs = env.written s.fs c.output s.fileBuffer := by
  unfold write; dsimp only; split <;> rfl

@[simp] theorem write_handed : (write t env c s).handed = some s.fileBuffer := by
  unfold write; dsimp only; split <;> rfl

@[simp] theorem write_workers : (write t env c s).workers = s.workers := by
  unfold write; dsimp only; split <;> rfl

@[simp] theorem write_fileBuffer : (write t env c s).fileBuffer = s.fileBuffer := by
  unfold write; dsimp only; split <;> rfl

@[simp] theorem write_retVal :
    (write t env c s).retVal = toInt (count (env.kernelWrite s.fileBuffer)) := by
  unfold write; dsimp only; split <;> rfl

end Fields

/-! ## The measure -/

/-- **Every statement of the main thread brings it closer to its end.** -/
theorem mainStep_rank {t : Texts} {s s' : State Path} (hs : mainStep t env c s = some s') :
    s'.pc.rank c.threads < s.pc.rank c.threads := by
  unfold mainStep at hs
  cases hpc : s.pc <;> simp only [hpc, Option.some.injEq, reduceCtorEq] at hs
  case await i =>
    unfold await at hs
    split at hs
    · rename_i hlt
      have hi : i < c.threads := by unfold Call.threads; omega
      split at hs
      · split at hs
        · cases hs; simp only [Pc.rank]; omega
        · cases hs
      · cases hs
    · cases hs; simp only [Pc.rank]; omega
  all_goals subst hs
  case spawn i =>
    unfold spawn
    split
    · rename_i hlt
      have hi : i < c.threads := by unfold Call.threads; omega
      split <;> simp only [fail, Pc.rank] <;> omega
    · simp only [Pc.rank]; omega
  case checkFiles =>
    unfold checkFiles
    split <;> simp only [fail, Pc.rank] <;> omega
  case copyPaths => unfold copyPaths; simp only; split <;> simp only [fail, Pc.rank] <;> omega
  case openInput => simp only [openInput, Pc.rank]; omega
  case openOutput => simp only [openOutput, Pc.rank]; omega
  case openKey => simp only [openKey, Pc.rank]; omega
  case sizeKey => unfold sizeKey; simp only; split <;> simp only [fail, Pc.rank] <;> omega
  case allocKey => unfold allocKey; split <;> simp only [fail, Pc.rank] <;> omega
  case readKey => unfold readKey; simp only; split <;> simp only [fail, Pc.rank] <;> omega
  case sizeInput => unfold sizeInput; simp only; split <;> simp only [fail, Pc.rank] <;> omega
  case allocData => unfold allocData; split <;> simp only [fail, Pc.rank] <;> omega
  case readInput => unfold readInput; simp only; split <;> simp only [fail, Pc.rank] <;> omega
  case allocLists => unfold allocLists; simp only; split <;> simp only [fail, Pc.rank] <;> omega
  case split => unfold split; simp only; split <;> simp only [Pc.rank] <;> omega
  case write => unfold write; simp only; split <;> simp only [fail, Pc.rank] <;> omega
  all_goals simp only [giveBack, Pc.rank]; omega

/-- What decreases with every step. -/
def progress (c : Call Path) (s : State Path) : Nat × Nat :=
  (s.pc.rank c.threads, workLeft s.workers)

theorem step_progress {op : Mode} {a : Actor} {s s' : State Path}
    (hs : step op env c a s = some s') :
    Prod.Lex (· < ·) (· < ·) (progress c s') (progress c s) := by
  cases a with
  | main => exact Prod.Lex.left _ _ (mainStep_rank hs)
  | worker k =>
    obtain ⟨hpc, hlt⟩ := workerStep_left hs
    unfold progress
    rw [hpc]
    exact Prod.Lex.right _ hlt

/-- The main thread only stops at the end of the call, at a division by zero, or to wait. -/
theorem mainStep_stuck {t : Texts} {s : State Path} (hs : mainStep t env c s = none) :
    s.pc = .done ∨ s.pc = .fault ∨
      ∃ i, s.pc = .await i ∧ (i : Int) < c.threadCount.toInt ∧
        ∀ w, s.workers[i]? = some w → w.completed = false := by
  unfold mainStep at hs
  cases hpc : s.pc <;> simp only [hpc, reduceCtorEq] at hs
  case done => exact Or.inl rfl
  case fault => exact Or.inr (Or.inl rfl)
  case await i =>
    refine Or.inr (Or.inr ⟨i, rfl, ?_⟩)
    unfold await at hs
    split at hs
    · rename_i hlt
      refine ⟨hlt, fun w hw => ?_⟩
      rw [hw] at hs
      simp only at hs
      split at hs
      · cases hs
      · rename_i hc; simpa using hc
    · cases hs

/-- **No deadlock**: a state in which nobody can move is the end of the call or its fault. -/
theorem terminal_cases {op : Mode} {s : State Path} (h : Inv env c fs₀ s)
    (ht : Terminal (step op env c) s) : s.pc = .done ∨ s.pc = .fault := by
  rcases mainStep_stuck (ht .main) with hd | hf | ⟨i, hpc, hlt, hwait⟩
  · exact Or.inl hd
  · exact Or.inr hf
  · exfalso
    unfold Inv at h
    simp only [hpc] at h
    have hi : i < s.workers.length := by rw [h.1.length]; unfold Call.threads; omega
    have hget := List.getElem?_eq_getElem hi
    exact workerStep_isSome hget (hwait _ hget) (ht (.worker i))

/-- How a call can end: back in user space, or dead at the division by zero. -/
def Ended (env : Env) (c : Call Path) (fs₀ : FS Path) (s : State Path) : Prop :=
  (s.pc = .done ∧ Settled env c fs₀ s) ∨
    (s.pc = .fault ∧ Ready env c fs₀ ∧ c.threadCount.toInt = 0)

/-- **Every run of a call ends**, whatever the kernel answers and whatever the interleaving. -/
theorem call_ensures (op : Mode) (env : Env) (c : Call Path) (fs₀ : FS Path) :
    Ensures (step op env c)
      (fun s => Reach (step op env c) (State.init fs₀) s ∧ Ended env c fs₀ s) (State.init fs₀) := by
  refine Ensures.of_measure (progress c) (Prod.lex ⟨_, Nat.lt_wfRel.wf⟩ ⟨_, Nat.lt_wfRel.wf⟩).wf
    (fun _ _ _ hs => step_progress hs) fun s hr ht => ⟨hr, ?_⟩
  have hinv := reach_inv hr
  rcases terminal_cases hinv ht with hpc | hpc
  · unfold Inv at hinv
    simp only [hpc] at hinv
    exact Or.inl ⟨hpc, hinv⟩
  · unfold Inv at hinv
    simp only [hpc] at hinv
    exact Or.inr ⟨hpc, hinv.1, hinv.2.1⟩

theorem Failed.not_writesOut {s : State Path} (h : Failed env c fs₀ s) : ¬ WritesOut env c fs₀ := by
  intro hw
  rcases h.crew with ⟨hr, _⟩ | ⟨_, j, hj, _⟩
  · exact hr hw.toReady
  · exact hw.no_failure hj

/-- What a call that returns has handed to `kernel_write`. -/
theorem Settled.handed_cases {s : State Path} (h : Settled env c fs₀ s) :
    (WritesOut env c fs₀ ∧ s.handed = some (cipherText env c fs₀)) ∨
      (¬ WritesOut env c fs₀ ∧ s.handed = none) :=
  h.elim (fun h => Or.inr ⟨h.not_writesOut, h.handed⟩) (fun h => Or.inl ⟨h.writesOut, h.handed⟩)

/-- A call that cannot divide by zero returns to user space. -/
theorem call_returns (op : Mode) (env : Env) (c : Call Path) (fs₀ : FS Path)
    (h : Ready env c fs₀ → c.threadCount.toInt ≠ 0) :
    Ensures (step op env c) (fun s => s.pc = .done ∧ Settled env c fs₀ s) (State.init fs₀) :=
  (call_ensures op env c fs₀).mono fun _ ⟨_, hend⟩ =>
    hend.elim id fun ⟨_, hr, h0⟩ => absurd h0 (h hr)

end Runs

end UsacSyscalls.Cipher
