import UsacSyscalls.Cipher.Runs

/-!
# Two calls on the same files

`jointStep` lets the threads of two calls move in any order over one file system.  A call looks at
the files it names only: as long as its output is neither its input nor its key, other contents of
the output file change nothing but that file (`step_withFs`).

* `reach_solo` — in every run of the two together, each call is in a state that it also reaches
  alone, with files that differ in the output at most.
-/

set_option autoImplicit false

namespace UsacSyscalls.Cipher

open Lib.Run

section Files

variable {Path : Type}

/-- The files are the same except for one. -/
def AgreeOff (out : Path) (fs fs' : FS Path) : Prop := ∀ p, p ≠ out → fs p = fs' p

theorem AgreeOff.refl (out : Path) (fs : FS Path) : AgreeOff out fs fs := fun _ _ => rfl

theorem AgreeOff.symm {out : Path} {fs fs' : FS Path} (h : AgreeOff out fs fs') :
    AgreeOff out fs' fs := fun p hp => (h p hp).symm

theorem AgreeOff.trans {out : Path} {fs fs' fs'' : FS Path} (h : AgreeOff out fs fs')
    (h' : AgreeOff out fs' fs'') : AgreeOff out fs fs'' := fun p hp => (h p hp).trans (h' p hp)

theorem AgreeOff.contents_eq {out p : Path} {fs fs' : FS Path} (h : AgreeOff out fs fs')
    (hp : p ≠ out) : contents fs p = contents fs' p := by
  unfold contents
  rw [h p hp]

theorem AgreeOff.openRead_eq {env : Env} {out p : Path} {fs fs' : FS Path} {f : Operand}
    (h : AgreeOff out fs fs') (hp : p ≠ out) : env.openRead fs f p = env.openRead fs' f p := by
  unfold Env.openRead
  rw [h p hp]

variable [DecidableEq Path]

theorem agreeOff_openWrite (env : Env) (fs : FS Path) (out : Path) :
    AgreeOff out (env.openWrite fs out) fs := by
  intro p hp
  unfold Env.openWrite
  split
  · exact Function.update_of_ne hp _ _
  · rfl

theorem agreeOff_written (env : Env) (fs : FS Path) (out : Path) (buf : Bytes) :
    AgreeOff out (env.written fs out buf) fs := by
  intro p hp
  unfold Env.written
  cases env.kernelWrite buf with
  | error e => rfl
  | ok n => exact Function.update_of_ne hp _ _

end Files

section Step

variable {Path : Type}

/-- The same state over other files. -/
def State.withFs (s : State Path) (fs : FS Path) : State Path := { s with fs := fs }

@[simp] theorem State.withFs_fs (s : State Path) (fs : FS Path) : (s.withFs fs).fs = fs := rfl
@[simp] theorem State.withFs_pc (s : State Path) (fs : FS Path) : (s.withFs fs).pc = s.pc := rfl
@[simp] theorem State.withFs_withFs (s : State Path) (fs fs' : FS Path) :
    (s.withFs fs).withFs fs' = s.withFs fs' := rfl
@[simp] theorem State.withFs_self (s : State Path) : s.withFs s.fs = s := rfl

theorem workerStep_withFs (op : Mode) (k : Nat) (s : State Path) (fs : FS Path) :
    workerStep op k (s.withFs fs) = (workerStep op k s).map (State.withFs · fs) := by
  unfold workerStep
  dsimp only [State.withFs]
  cases s.workers[k]? with
  | none => rfl
  | some w =>
    dsimp only
    cases op.worker w s.fileBuffer s.encryptionKey <;> rfl

theorem await_withFs (c : Call Path) (i : Nat) (s : State Path) (fs : FS Path) :
    await c i (s.withFs fs) = (await c i s).map (State.withFs · fs) := by
  unfold await
  dsimp only [State.withFs]
  split
  · cases s.workers[i]? with
    | none => rfl
    | some w =>
      dsimp only
      split <;> rfl
  · rfl

variable [DecidableEq Path] {env : Env} {c : Call Path}

/-! ## A step and the output file -/

/-- The main thread changes no file but the output. -/
theorem mainStep_agreeOff {t : Texts} {s s' : State Path} (hs : mainStep t env c s = some s') :
    AgreeOff c.output s'.fs s.fs := by
  rcases mainStep_cases hs with ⟨-, rfl⟩ | ⟨i, -, rfl⟩ | ⟨-, rfl⟩ | hside
  · exact agreeOff_openWrite env s.fs c.output
  · rw [spawn_fs]
    exact AgreeOff.refl _ _
  · rw [write_fs]
    exact agreeOff_written env s.fs c.output _
  · rw [hside.fs]
    exact AgreeOff.refl _ _

theorem step_agreeOff {op : Mode} {a : Actor} {s s' : State Path}
    (hs : step op env c a s = some s') : AgreeOff c.output s'.fs s.fs := by
  cases a with
  | main => exact mainStep_agreeOff hs
  | worker k =>
    obtain ⟨w, _, _, ⟨_, rfl⟩ | ⟨_, rfl⟩⟩ := workerStep_cases hs <;> exact AgreeOff.refl _ _

/-- The main thread does the same over files that differ in the output only. -/
theorem mainStep_withFs {t : Texts} {s s' : State Path} {fs : FS Path} (hin : c.input ≠ c.output)
    (hkey : c.key ≠ c.output) (hfs : AgreeOff c.output s.fs fs)
    (hs : mainStep t env c s = some s') :
    ∃ fs', mainStep t env c (s.withFs fs) = some (s'.withFs fs') := by
  have hin' := hfs.contents_eq hin
  have hkey' := hfs.contents_eq hkey
  unfold mainStep at hs ⊢
  rw [State.withFs_pc]
  cases hpc : s.pc <;> simp only [hpc, Option.some.injEq, reduceCtorEq] at hs ⊢
  case await i =>
    refine ⟨fs, ?_⟩
    rw [await_withFs, hs]
    rfl
  all_goals subst hs
  case openInput =>
    refine ⟨fs, ?_⟩
    unfold openInput
    simp only [State.withFs, hfs.openRead_eq hin]
  case openOutput => exact ⟨env.openWrite fs c.output, rfl⟩
  case openKey =>
    refine ⟨fs, ?_⟩
    unfold openKey
    simp only [State.withFs, hfs.openRead_eq hkey]
  case sizeKey =>
    refine ⟨fs, ?_⟩
    unfold sizeKey
    dsimp only [State.withFs]
    rw [hkey']
    split <;> rfl
  case readKey =>
    refine ⟨fs, ?_⟩
    unfold readKey
    dsimp only [State.withFs]
    rw [hkey']
    split <;> rfl
  case sizeInput =>
    refine ⟨fs, ?_⟩
    unfold sizeInput
    dsimp only [State.withFs]
    rw [hin']
    split <;> rfl
  case readInput =>
    refine ⟨fs, ?_⟩
    unfold readInput
    dsimp only [State.withFs]
    rw [hin']
    split <;> rfl
  case write =>
    refine ⟨env.written fs c.output s.fileBuffer, ?_⟩
    unfold write
    dsimp only [State.withFs]
    split <;> rfl
  case spawn i => refine ⟨fs, ?_⟩; unfold spawn; split <;> [split; skip] <;> rfl
  case checkFiles =>
    refine ⟨fs, ?_⟩
    unfold checkFiles
    dsimp only [State.withFs]
    split <;> rfl
  case copyPaths => refine ⟨fs, ?_⟩; unfold copyPaths; dsimp only [State.withFs]; split <;> rfl
  case allocKey => refine ⟨fs, ?_⟩; unfold allocKey; rw [apply_ite (State.withFs · fs)]; rfl
  case allocData => refine ⟨fs, ?_⟩; unfold allocData; rw [apply_ite (State.withFs · fs)]; rfl
  case allocLists => refine ⟨fs, ?_⟩; unfold allocLists; dsimp only [State.withFs]; split <;> rfl
  case split => refine ⟨fs, ?_⟩; unfold split; dsimp only [State.withFs]; split <;> rfl
  all_goals exact ⟨fs, rfl⟩

/-- **A call looks at the files it names only.** -/
theorem step_withFs {op : Mode} {a : Actor} {s s' : State Path} {fs : FS Path}
    (hin : c.input ≠ c.output) (hkey : c.key ≠ c.output) (hfs : AgreeOff c.output s.fs fs)
    (hs : step op env c a s = some s') :
    ∃ fs', step op env c a (s.withFs fs) = some (s'.withFs fs') := by
  cases a with
  | main => exact mainStep_withFs hin hkey hfs hs
  | worker k =>
    have hs : workerStep op k s = some s' := hs
    refine ⟨fs, ?_⟩
    show workerStep op k (s.withFs fs) = _
    rw [workerStep_withFs, hs]
    rfl

end Step

/-! ## Two calls at once -/

inductive Caller where
  | first
  | second
  deriving DecidableEq, Repr

def Caller.other : Caller → Caller
  | .first => .second
  | .second => .first

@[simp] theorem Caller.other_other (i : Caller) : i.other.other = i := by cases i <;> rfl

theorem Caller.other_ne (i : Caller) : i.other ≠ i := by cases i <;> simp [Caller.other]

theorem Caller.eq_other_of_ne {i j : Caller} (h : j ≠ i) : j = i.other := by
  cases i <;> cases j <;> first | rfl | exact absurd rfl h

/-- A system call, its arguments and the kernel's answers to it. -/
structure Party (Path : Type) where
  op : Mode
  env : Env
  call : Call Path

/-- Both calls, over the files as they are now; the files a call's own state remembers are those
    of its last step. -/
structure Joint (Path : Type) where
  fs : FS Path
  call : Caller → State Path

def Joint.init {Path : Type} (fs₀ : FS Path) : Joint Path := ⟨fs₀, fun _ => State.init fs₀⟩

section Joint

variable {Path : Type} [DecidableEq Path]

def Party.step (p : Party Path) : Actor → State Path → Option (State Path) :=
  Cipher.step p.op p.env p.call

/-- One thread of one of the two calls moves. -/
def jointStep (p : Caller → Party Path) : Caller × Actor → Joint Path → Option (Joint Path)
  | (i, a), b =>
    ((p i).step a ((b.call i).withFs b.fs)).map fun s => ⟨s.fs, Function.update b.call i s⟩

variable {p : Caller → Party Path} {fs₀ : FS Path} {out : Path}

theorem jointStep_cases {i : Caller} {a : Actor} {b b' : Joint Path}
    (hs : jointStep p (i, a) b = some b') :
    ∃ s, (p i).step a ((b.call i).withFs b.fs) = some s ∧
      b' = ⟨s.fs, Function.update b.call i s⟩ := by
  obtain ⟨s, hstep, rfl⟩ := Option.map_eq_some_iff.mp hs
  exact ⟨s, hstep, rfl⟩

/-- The two calls write the same file and read others. -/
structure SameOutput (p : Caller → Party Path) (out : Path) : Prop where
  output : ∀ i, (p i).call.output = out
  input : ∀ i, (p i).call.input ≠ out
  key : ∀ i, (p i).call.key ≠ out

/-- A state that the call `i` reaches alone and in which it is exactly as far as in `b`. -/
structure Solo (p : Caller → Party Path) (fs₀ : FS Path) (out : Path) (b : Joint Path) (i : Caller)
    (v : State Path) : Prop where
  reach : Reach (p i).step (State.init fs₀) v
  same : ∀ fs, (b.call i).withFs fs = v.withFs fs
  files : AgreeOff out v.fs b.fs

theorem Solo.pc_eq {b : Joint Path} {i : Caller} {v : State Path} (h : Solo p fs₀ out b i v) :
    (b.call i).pc = v.pc := by
  have hsame := congrArg State.pc (h.same v.fs)
  exact hsame

theorem Solo.retVal_eq {b : Joint Path} {i : Caller} {v : State Path} (h : Solo p fs₀ out b i v) :
    (b.call i).retVal = v.retVal := by
  have hsame := congrArg State.retVal (h.same v.fs)
  exact hsame

theorem Solo.handed_eq {b : Joint Path} {i : Caller} {v : State Path} (h : Solo p fs₀ out b i v) :
    (b.call i).handed = v.handed := by
  have hsame := congrArg State.handed (h.same v.fs)
  exact hsame

theorem solo_step (hp : SameOutput p out) {i : Caller} {a : Actor} {b b' : Joint Path}
    (h : ∀ j, ∃ v, Solo p fs₀ out b j v) (hs : jointStep p (i, a) b = some b') :
    ∀ j, ∃ v, Solo p fs₀ out b' j v := by
  obtain ⟨s, hstep, rfl⟩ := jointStep_cases hs
  have hagree : AgreeOff out s.fs b.fs := by
    have := step_agreeOff hstep
    rwa [hp.output i] at this
  intro j
  obtain ⟨v, hv⟩ := h j
  by_cases hij : j = i
  · subst hij
    rw [hv.same] at hstep
    have hback : AgreeOff (p j).call.output (v.withFs b.fs).fs v.fs := by
      rw [hp.output j]; exact hv.files.symm
    obtain ⟨fs', hsolo⟩ := step_withFs (by rw [hp.output]; exact hp.input j)
      (by rw [hp.output]; exact hp.key j) hback hstep
    rw [State.withFs_withFs, State.withFs_self] at hsolo
    have hmoved := step_agreeOff hsolo
    rw [hp.output j] at hmoved
    refine ⟨s.withFs fs', hv.reach.tail ⟨a, hsolo⟩, fun fs => ?_, ?_⟩
    · rw [State.withFs_withFs]
      show (Function.update b.call j s j).withFs fs = _
      rw [Function.update_self]
    · exact (hmoved.trans hv.files).trans hagree.symm
  · refine ⟨v, hv.reach, fun fs => ?_, hv.files.trans hagree.symm⟩
    show (Function.update b.call i s j).withFs fs = _
    rw [Function.update_of_ne hij]
    exact hv.same fs

/-- **Each call runs as if alone**, up to the contents of the output file. -/
theorem reach_solo (hp : SameOutput p out) {b : Joint Path}
    (hr : Reach (jointStep p) (Joint.init fs₀) b) : ∀ i, ∃ v, Solo p fs₀ out b i v := by
  have hstart : ∀ i, ∃ v, Solo p fs₀ out (Joint.init fs₀) i v := fun i =>
    ⟨State.init fs₀, .refl, fun _ => rfl, AgreeOff.refl _ _⟩
  exact hr.invariant (I := fun b => ∀ i, ∃ v, Solo p fs₀ out b i v) hstart
    fun ⟨_, _⟩ _ _ h hs => solo_step hp h hs

end Joint

end UsacSyscalls.Cipher
