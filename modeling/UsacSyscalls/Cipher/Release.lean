import UsacSyscalls.Cipher.Balance

/-!
# When the cleanup labels run while workers do

The path that has started every thread waits for all of them before it gives anything back.  The
path on which `kthread_run` fails jumps to the same labels without waiting for the threads that
were started before.

* `SafeRelease` — in no reachable state has a block that the workers use been released while one
  of them has not completed.
* `not_safe_of_failure` — the schedule that breaks it: the main thread runs to its end first.
* `safeRelease_iff` — it holds exactly for the calls in which no thread but the first can be the
  first to fail.
-/

set_option autoImplicit false

namespace UsacSyscalls.Cipher

open Lib.Run Lib.Ledger

/-- The blocks the workers read and write. -/
def workerBlocks : List Block := [.taskList, .encryptionKey, .fileBuffer]

theorem Worker.completed_of_touches {w : Worker} {b : Block} (h : b ∈ w.touches) :
    w.completed = false := by
  unfold Worker.touches at h
  split at h
  · cases h
  · rename_i hc; simpa using hc

section Release

variable {Path : Type} [DecidableEq Path]

/-- In every reachable state in which the data buffer, the key buffer or the task list has been
    released, every thread that was started has completed; so no thread's next step reads or
    writes a released block. -/
def SafeRelease (op : Mode) (env : Env) (c : Call Path) (fs₀ : FS Path) : Prop :=
  ∀ s, Reach (step op env c) (State.init fs₀) s →
    (∀ b ∈ workerBlocks, .release (.block b) ∈ s.trail → ∀ w ∈ s.workers, w.completed = true) ∧
    ∀ w ∈ s.workers, ∀ b ∈ w.touches, .release (.block b) ∉ s.trail

variable {env : Env} {c : Call Path} {fs₀ : FS Path}

/-- A released block means that nobody is left working, or that a thread could not be started. -/
theorem Inv.released {s : State Path} (h : Inv env c fs₀ s) {b : Block}
    (hb : Op.release (.block b) ∈ s.trail) :
    (∀ w ∈ s.workers, w.completed = true) ∨
      (Ready env c fs₀ ∧ ∃ j, FirstFailure env c j ∧ s.workers.length = j) := by
  have hnil : s.workers = [] → ∀ w ∈ s.workers, w.completed = true := fun h w hw => by
    rw [h] at hw; cases hw
  have hsettled : Settled env c fs₀ s → (∀ w ∈ s.workers, w.completed = true) ∨
      (Ready env c fs₀ ∧ ∃ j, FirstFailure env c j ∧ s.workers.length = j) := by
    rintro (hf | hw)
    · exact hf.crew.imp (fun hr => hnil hr.2) id
    · exact Or.inl hw.completed
  unfold Inv at h
  cases hpc : s.pc <;> simp only [hpc] at h
  case copyPaths | openInput | openOutput | openKey | checkFiles | sizeKey | allocKey | readKey =>
    exact absurd hb (h.1.kept b)
  case sizeInput | allocData | readInput => exact absurd hb (h.1.idle.kept b)
  case allocLists | split => exact absurd hb (h.1.idle.kept b)
  case spawn i => exact absurd hb (h.kept b)
  case await i => exact absurd hb (h.1.kept b)
  case write => exact absurd hb (h.1.kept b)
  case fault => exact Or.inl (hnil h.2.2.1)
  all_goals exact hsettled h

/-- Without a late failure, a released block means that nobody is left working. -/
theorem safe_of_no_failure (op : Mode)
    (h : Ready env c fs₀ → ∀ j, FirstFailure env c j → j = 0) : SafeRelease op env c fs₀ := by
  intro s hr
  have hdone : ∀ b, Op.release (.block b) ∈ s.trail → ∀ w ∈ s.workers, w.completed = true := by
    intro b hb
    rcases (reach_inv hr).released hb with hd | ⟨hready, j, hj, hlen⟩
    · exact hd
    · rw [h hready j hj, List.length_eq_zero_iff] at hlen
      intro w hw
      rw [hlen] at hw
      cases hw
  refine ⟨fun b _ hb => hdone b hb, fun w hw b hb hrel => ?_⟩
  have hc := Worker.completed_of_touches hb
  rw [hdone b hrel w hw] at hc
  cases hc

/-! ## The schedule on which the workers never move -/

/-- The main thread on its own. -/
def mainAlone (op : Mode) (env : Env) (c : Call Path) : Unit → State Path → Option (State Path) :=
  fun _ => mainStep op.texts env c

/-- The main thread adds workers and touches none. -/
theorem mainStep_fresh {t : Texts} {s s' : State Path} (hs : mainStep t env c s = some s')
    (h : ∀ w ∈ s.workers, w.completed = false) : ∀ w ∈ s'.workers, w.completed = false := by
  rcases mainStep_cases hs with ⟨-, rfl⟩ | ⟨i, -, rfl⟩ | ⟨-, rfl⟩ | hside
  · exact h
  · unfold spawn
    split
    · split
      · exact h
      · intro w hw
        rcases List.mem_append.mp hw with hw | hw
        · exact h w hw
        · rw [List.mem_singleton] at hw
          subst hw
          rfl
    · exact h
  · rw [write_workers]
    exact h
  · rw [hside.workers]
    exact h

/-- The main thread alone comes to a stop, and no worker has completed then. -/
theorem mainAlone_stops (op : Mode) (env : Env) (c : Call Path) (fs₀ : FS Path) :
    ∃ s, Reach (step op env c) (State.init fs₀) s ∧ mainStep op.texts env c s = none ∧
      ∀ w ∈ s.workers, w.completed = false := by
  have hens : Ensures (mainAlone op env c)
      (fun s => Reach (mainAlone op env c) (State.init fs₀) s) (State.init fs₀) :=
    Ensures.of_measure (fun s => s.pc.rank c.threads) Nat.lt_wfRel.wf
      (fun _ _ _ hs => mainStep_rank hs) fun _ hr _ => hr
  obtain ⟨s, hr, ht, -⟩ := hens.exists_final
  refine ⟨s, hr.of_subsystem fun _ _ _ hs => ⟨.main, hs⟩, ht (), ?_⟩
  exact hr.invariant (I := fun s => ∀ w ∈ s.workers, w.completed = false) (by intro w hw; cases hw)
    fun _ _ _ h hs => mainStep_fresh hs h

/-- A call that gets as far as starting threads gives every block back. -/
theorem release_mem_callTrail (h : Ready env c fs₀) (hpos : 0 < c.threadCount.toInt) (b : Block) :
    .release (.block b) ∈ callTrail env c fs₀ := by
  have hzero : toSizeT c.threadCount.toInt ≠ 0 := by rw [ne_eq, toSizeT_eq_zero]; omega
  rw [callTrail_of_opened h.toOpened, sizeKeyTrail_of_loaded h.toLoaded, allocListsTrail, splitTrail]
  simp only [h.lists _, Bool.and_self, if_true, hzero, if_false, List.mem_append]
  refine Or.inr (Or.inr (Or.inr ?_))
  cases b <;> decide

/-- **Use after free**: when a thread other than the first cannot be started, there is a schedule
    on which the blocks are released while the threads started before it have not completed. -/
theorem not_safe_of_failure (op : Mode) (hready : Ready env c fs₀) {j : Nat}
    (hj : FirstFailure env c j) (hpos : 0 < j) : ¬ SafeRelease op env c fs₀ := by
  intro hsafe
  obtain ⟨s, hr, hstuck, hfresh⟩ := mainAlone_stops op env c fs₀
  have hinv := reach_inv hr
  have htrail := reach_trail hr
  have hlt := hj.lt
  unfold Inv at hinv
  rcases mainStep_stuck hstuck with hpc | hpc | ⟨i, hpc, -, -⟩ <;> simp only [hpc] at hinv
  · have hcrew : s.workers.length = j := by
      rcases hinv with hf | hw
      · rcases hf.crew with ⟨hr, _⟩ | ⟨_, i, hi, hlen⟩
        · exact absurd hready hr
        · rw [hlen, hi.unique hj]
      · exact absurd hj hw.writesOut.no_failure
    have hfirst : 0 < s.workers.length := by omega
    have hmem : s.workers[0] ∈ s.workers := List.getElem_mem hfirst
    rw [hpc, trailFrom, List.append_nil] at htrail
    have hrel : Op.release (.block .fileBuffer) ∈ s.trail := by
      rw [htrail]
      exact release_mem_callTrail hready (by omega) _
    have hdone := (hsafe s hr).1 .fileBuffer (by decide) hrel _ hmem
    rw [hfresh _ hmem] at hdone
    cases hdone
  · omega
  · exact hj.fails (hinv.1.started j (by unfold Call.threads; omega))

/-- **No release while a worker runs**: over every interleaving, a call releases the workers'
    blocks only after they have all completed iff no thread but the first can be the first that
    cannot be started. -/
theorem safeRelease_iff (op : Mode) (env : Env) (c : Call Path) (fs₀ : FS Path) :
    SafeRelease op env c fs₀ ↔ (Ready env c fs₀ → ∀ j, FirstFailure env c j → j = 0) := by
  constructor
  · intro hsafe hready j hj
    rcases Nat.eq_zero_or_pos j with h0 | hpos
    · exact h0
    · exact absurd hsafe (not_safe_of_failure op hready hj hpos)
  · exact safe_of_no_failure op

/-- Two threads, of which the second cannot be started. -/
theorem not_safeRelease_second_thread :
    ¬ SafeRelease .encrypt { Env.ideal with kthreadRun := fun j => if j = 1 then some ENOMEM else none }
      (⟨0, 1, 2, 2⟩ : Call Nat)
      (fun p => if p = 0 then some [10, 20, 30] else if p = 2 then some [7, 9] else none) := by
  intro hsafe
  have hr := hsafe _ (reach_of_exec (List.replicate 24 .main) rfl)
  exact absurd (hr.1 .taskList (by decide) (by decide)) (by decide)

end Release

end UsacSyscalls.Cipher
