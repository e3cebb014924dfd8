import UsacSyscalls.Cipher.Runs

/-!
# What a failed cipher call leaves behind

The output file is opened with `O_CREAT | O_TRUNC` together with the other two, before any check,
and no exit undoes that.

* `FilesKept` — a call that fails before `kernel_write` leaves every file as it was.
* `failed_call_files` — what is left instead: the output file is empty if it was opened, and
  everything else is as it was.
-/

set_option autoImplicit false

namespace UsacSyscalls.Cipher

open Lib.Run

variable {Path : Type} [DecidableEq Path]

/-- The call returned an error to user space without having reached `kernel_write`. -/
structure ReturnedError (s : State Path) : Prop where
  done : s.pc = .done
  unwritten : s.handed = none
  negative : s.retVal < 0

/-- A call that fails before `kernel_write` leaves every file as it was and creates none. -/
def FilesKept (op : Mode) (env : Env) (c : Call Path) (fs₀ : FS Path) : Prop :=
  Ensures (step op env c) (fun s => ReturnedError s → s.fs = fs₀) (State.init fs₀)

/-- An in-place call empties its own input and then refuses it as too short. -/
theorem not_filesKept_in_place :
    ¬ FilesKept .encrypt Env.ideal (⟨0, 0, 2, 2⟩ : Call Nat)
      (fun p => if p = 0 then some [10, 20, 30] else if p = 2 then some [7, 9] else none) := by
  intro h
  have hend := h.post _ (reach_of_exec (List.replicate 15 .main) rfl) fun a => by
    cases a <;> rfl
  have hfs := congrFun (hend ⟨rfl, rfl, by decide⟩) 0
  revert hfs
  decide

/-- **Failed calls**: a call that fails before `kernel_write` leaves every file but the output as
    it was; the output is as it was too, unless it was opened, and then it is empty. -/
theorem failed_call_files (op : Mode) (env : Env) (c : Call Path) (fs₀ : FS Path) :
    Ensures (step op env c) (fun s => ReturnedError s →
      (∀ p, p ≠ c.output → s.fs p = fs₀ p) ∧
      s.fs c.output =
        if Copied env ∧ env.filpOpen .output = none then some [] else fs₀ c.output)
      (State.init fs₀) := by
  refine (call_ensures op env c fs₀).mono fun s ⟨_, hend⟩ hret => ?_
  have hset : Settled env c fs₀ s := by
    rcases hend with ⟨_, h⟩ | ⟨hpc, _⟩
    · exact h
    · rw [hret.done] at hpc; cases hpc
  rcases hset with hf | hw
  · rcases hf.fs with ⟨hc, hfs⟩ | ⟨hc, hfs⟩
    · cases ho : env.filpOpen .output with
      | none =>
        rw [hfs, afterOpen, Env.openWrite, if_pos (by rw [ho]; rfl), if_pos ⟨hc, rfl⟩]
        exact ⟨fun p hp => Function.update_of_ne hp _ _, Function.update_self ..⟩
      | some e =>
        rw [hfs, afterOpen, Env.openWrite, if_neg (by simp [ho]), if_neg (by simp)]
        exact ⟨fun _ _ => rfl, rfl⟩
    · rw [hfs, if_neg fun h => hc h.1]
      exact ⟨fun _ _ => rfl, rfl⟩
  · have := hw.handed
    rw [hret.unwritten] at this
    cases this

end UsacSyscalls.Cipher
