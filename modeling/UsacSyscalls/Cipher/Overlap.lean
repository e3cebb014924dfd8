import UsacSyscalls.Lib.SharedFile
import UsacSyscalls.Cipher.Joint

/-!
# Two overlapping calls with one output file

A call empties its output file when it opens it and fills it with one write at the end; nothing
keeps another call from doing the same in between.

* `State.phase` — how far a call has got with its output file.
* `reach_output` — the file of two calls is at every moment one that two such writers can leave.
* `overlapping_outputs` — after two calls that both return without error the file holds the result
  of one of them, or the shorter result with the tail of the longer one behind it.
-/

set_option autoImplicit false

namespace UsacSyscalls.Cipher

open Lib.Run Lib.SharedFile

/-! ## The two events of a call -/

section Phase

variable {Path : Type}

/-- The statements before the output file is opened. -/
def Pc.BeforeOpen (pc : Pc) : Prop := pc = .copyPaths ∨ pc = .openInput ∨ pc = .openOutput

instance (pc : Pc) : Decidable pc.BeforeOpen := inferInstanceAs (Decidable (_ ∨ _))

def State.phase (s : State Path) : Phase :=
  if s.handed.isSome then .written else if s.pc.BeforeOpen then .outside else .opened

theorem phase_congr {s s' : State Path} (hh : s'.handed = s.handed)
    (hpc : s'.pc.BeforeOpen ↔ s.pc.BeforeOpen) : s'.phase = s.phase := by
  unfold State.phase
  simp only [hh, hpc]

theorem phase_outside {s : State Path} (hh : s.handed = none) (hpc : s.pc.BeforeOpen) :
    s.phase = .outside := by
  simp [State.phase, hh, hpc]

theorem phase_opened {s : State Path} (hh : s.handed = none) (hpc : ¬ s.pc.BeforeOpen) :
    s.phase = .opened := by
  simp [State.phase, hh, hpc]

theorem phase_written {s : State Path} {buf : Bytes} (hh : s.handed = some buf) :
    s.phase = .written := by
  simp [State.phase, hh]

variable [DecidableEq Path] {env : Env} {c : Call Path} {fs₀ fs : FS Path}

/-- The statements before the output file is opened are the farthest from the end. -/
theorem beforeOpen_iff_rank (n : Nat) (pc : Pc) : pc.BeforeOpen ↔ 24 + 2 * n ≤ pc.rank n := by
  unfold Pc.BeforeOpen
  cases pc <;> simp only [Pc.rank, reduceCtorEq, or_false, or_true, or_self, true_iff, false_iff] <;>
    omega

/-- Only `filp_open` on the output file takes a call past it. -/
theorem mainStep_beforeOpen {t : Texts} {s s' : State Path} (hcopied : Copied env)
    (hs : mainStep t env c s = some s') (hne : s.pc ≠ .openOutput) :
    s'.pc.BeforeOpen ↔ s.pc.BeforeOpen := by
  by_cases hbefore : s.pc.BeforeOpen
  · refine iff_of_true ?_ hbefore
    rcases hbefore with hpc | hpc | hpc
    · simp only [mainStep, hpc, Option.some.injEq] at hs
      subst hs
      simp [copyPaths, hcopied _, Pc.BeforeOpen]
    · simp only [mainStep, hpc, Option.some.injEq] at hs
      subst hs
      simp [openInput, Pc.BeforeOpen]
    · exact absurd hpc hne
  · refine iff_of_false ?_ hbefore
    have hrank := mainStep_rank hs
    rw [beforeOpen_iff_rank c.threads] at hbefore ⊢
    omega

/-- **What a step does to the output file**, in a call that gets to `kernel_write`: nothing, the
    truncation or the write. -/
theorem mainStep_phase {t : Texts} {v s' : State Path} (hw : WritesOut env c fs₀)
    (hi : Inv env c fs₀ v) (hs : mainStep t env c (v.withFs fs) = some s') :
    (s'.phase = v.phase ∧ s'.fs = fs) ∨
      (v.phase = .outside ∧ s'.phase = .opened ∧ s'.fs = env.openWrite fs c.output) ∨
      (v.phase = .opened ∧ s'.phase = .written ∧
        s'.fs = env.written fs c.output (cipherText env c fs₀)) := by
  unfold Inv at hi
  by_cases hopen : v.pc = .openOutput
  · simp only [mainStep, State.withFs_pc, hopen, Option.some.injEq] at hi hs
    subst hs
    refine Or.inr (Or.inl ⟨phase_outside hi.1.handed (by simp [Pc.BeforeOpen, hopen]), ?_, rfl⟩)
    exact phase_opened hi.1.handed (by simp [openOutput, Pc.BeforeOpen])
  have hbefore := mainStep_beforeOpen hw.copied hs hopen
  rcases mainStep_cases hs with ⟨hpc, -⟩ | ⟨i, -, rfl⟩ | ⟨hpc, rfl⟩ | hside
  · exact absurd hpc hopen
  · exact Or.inl ⟨phase_congr (spawn_handed ..) hbefore, spawn_fs ..⟩
  · rw [State.withFs_pc] at hpc
    simp only [hpc] at hi
    have hbuf : v.fileBuffer = cipherText env c fs₀ := hi.1.fileBuffer_eq hi.2
    refine Or.inr (Or.inr ⟨phase_opened hi.1.handed (by simp [Pc.BeforeOpen, hpc]),
      phase_written (write_handed ..), ?_⟩)
    rw [write_fs, ← hbuf]
    rfl
  · exact Or.inl ⟨phase_congr hside.handed hbefore, hside.fs⟩

end Phase

/-! ## The file of two calls -/

section Overlap

variable {Path : Type} [DecidableEq Path] {p : Caller → Party Path} {fs₀ : FS Path} {out : Path}

/-- The complete result of a call: what it hands to `kernel_write`. -/
def result (p : Caller → Party Path) (fs₀ : FS Path) (i : Caller) : Bytes :=
  cipherText (p i).env (p i).call fs₀

/-- Between the start and `b` there was a moment at which both calls had opened the output file
    and neither had written it. -/
def Overlapped (p : Caller → Party Path) (fs₀ : FS Path) (b : Joint Path) : Prop :=
  ∃ m, Reach (jointStep p) (Joint.init fs₀) m ∧ Reach (jointStep p) m b ∧
    ∀ i, (m.call i).phase = .opened

theorem Overlapped.step {b b' : Joint Path} (h : Overlapped p fs₀ b)
    (hs : Step (jointStep p) b b') : Overlapped p fs₀ b' := by
  obtain ⟨m, hm, hmb, hopen⟩ := h
  exact ⟨m, hm, hmb.tail hs, hopen⟩

/-- The contents of the output file in `b`, as the call `i` sees the two writers. -/
def FileFits (p : Caller → Party Path) (fs₀ : FS Path) (out : Path) (b : Joint Path)
    (i : Caller) : Prop :=
  Possible (result p fs₀ i) (result p fs₀ i.other) (Overlapped p fs₀ b) (contents b.fs out)
    (b.call i).phase (b.call i.other).phase

theorem FileFits.swap {b : Joint Path} {i : Caller} (h : FileFits p fs₀ out b i) :
    FileFits p fs₀ out b i.other := by
  unfold FileFits
  rw [Caller.other_other]
  exact Possible.swap h

/-- Both calls get to `kernel_write`, and it stores all they hand to it. -/
structure BothWrite (p : Caller → Party Path) (fs₀ : FS Path) : Prop where
  writesOut : ∀ i, WritesOut (p i).env (p i).call fs₀
  stores : ∀ i, (p i).env.kernelWrite (result p fs₀ i) = .ok (result p fs₀ i).length

theorem contents_openWrite {env : Env} {fs : FS Path} (h : env.filpOpen .output = none) :
    contents (env.openWrite fs out) out = [] := by
  simp [contents, Env.openWrite, h]

theorem contents_written {env : Env} {fs : FS Path} {buf : Bytes}
    (h : env.kernelWrite buf = .ok buf.length) :
    contents (env.written fs out buf) out = overlay (contents fs out) buf := by
  simp [contents, Env.written, h, overwrite, overlay]

/-- **One step of either call** keeps the file to what two such writers can leave. -/
theorem FileFits.step (hp : SameOutput p out) (hb : BothWrite p fs₀) {i : Caller} {a : Actor}
    {b b' : Joint Path} (hr : Reach (jointStep p) (Joint.init fs₀) b)
    (h : FileFits p fs₀ out b i) (hs : jointStep p (i, a) b = some b') :
    FileFits p fs₀ out b' i := by
  have hover : Overlapped p fs₀ b → Overlapped p fs₀ b' := fun h => h.step ⟨(i, a), hs⟩
  have hr' : Reach (jointStep p) (Joint.init fs₀) b' := hr.tail ⟨(i, a), hs⟩
  obtain ⟨v, hv⟩ := reach_solo hp hr i
  have hphase : (b.call i).phase = v.phase := by
    have hsame := congrArg State.phase (hv.same v.fs)
    exact hsame
  obtain ⟨s, hstep, rfl⟩ := jointStep_cases hs
  have hmine : (Function.update b.call i s) i = s := Function.update_self _ _ _
  have htheirs : (Function.update b.call i s) i.other = b.call i.other :=
    Function.update_of_ne i.other_ne _ _
  rw [hv.same] at hstep
  -- the moment at which the second one opens the file
  have hmoment : s.phase = .opened → (b.call i.other).phase = .opened →
      Overlapped p fs₀ ⟨s.fs, Function.update b.call i s⟩ := by
    intro hopen hq
    refine ⟨_, hr', .refl, fun j => ?_⟩
    show (Function.update b.call i s j).phase = .opened
    by_cases hj : j = i
    · subst hj; rw [hmine, hopen]
    · rw [Caller.eq_other_of_ne hj, htheirs, hq]
  unfold FileFits at h ⊢
  rw [hphase] at h
  simp only [hmine, htheirs]
  generalize Overlapped p fs₀ ⟨s.fs, Function.update b.call i s⟩ = M at hover hmoment ⊢
  cases a with
  | worker k =>
    obtain ⟨w, _, _, ⟨_, rfl⟩ | ⟨_, rfl⟩⟩ := workerStep_cases hstep <;> exact h.mono hover
  | main =>
    rcases mainStep_phase (hb.writesOut i) (reach_inv hv.reach) hstep with
      ⟨hsame, hfs⟩ | ⟨hbefore, hafter, hfs⟩ | ⟨hbefore, hafter, hfs⟩
    · rw [hsame, hfs]
      exact h.mono hover
    · rw [hbefore] at h
      rw [hafter, hfs, hp.output i, contents_openWrite (hb.writesOut i).output]
      exact (h.mono hover).truncate (hmoment hafter)
    · rw [hbefore] at h
      have hresult : cipherText (p i).env (p i).call fs₀ = result p fs₀ i := rfl
      rw [hafter, hfs, hp.output i, hresult, contents_written (hb.stores i)]
      exact (h.mono hover).write

/-- **The output file over a whole run.** -/
theorem reach_output (hp : SameOutput p out) (hb : BothWrite p fs₀) {b : Joint Path}
    (hr : Reach (jointStep p) (Joint.init fs₀) b) : ∀ i, FileFits p fs₀ out b i := by
  induction hr with
  | refl => intro i; cases i <;> exact trivial
  | tail hr hs ih =>
    obtain ⟨⟨j, a⟩, hs⟩ := hs
    have hmoved := (ih j).step hp hb hr hs
    intro i
    by_cases hij : i = j
    · subst hij; exact hmoved
    · rw [Caller.eq_other_of_ne hij]; exact hmoved.swap

/-! ## Two calls that succeed -/

/-- A call that returns without error has got to `kernel_write`. -/
theorem written_of_success (hp : SameOutput p out) {b : Joint Path}
    (hr : Reach (jointStep p) (Joint.init fs₀) b) {i : Caller} (hdone : (b.call i).pc = .done)
    (hok : 0 ≤ (b.call i).retVal) :
    WritesOut (p i).env (p i).call fs₀ ∧ (b.call i).handed = some (result p fs₀ i) ∧
      ∃ n, (p i).env.kernelWrite (result p fs₀ i) = .ok n := by
  obtain ⟨v, hv⟩ := reach_solo hp hr i
  have hinv := reach_inv hv.reach
  rw [hv.pc_eq] at hdone
  rw [hv.retVal_eq] at hok
  unfold Inv at hinv
  simp only [hdone] at hinv
  rcases hinv with hf | hw
  · have := hf.negative
    omega
  · refine ⟨hw.writesOut, by rw [hv.handed_eq, hw.handed]; rfl, ?_⟩
    cases hk : (p i).env.kernelWrite (result p fs₀ i) with
    | error e =>
      have hneg := e.ret_neg
      have hret := hw.retVal
      rw [show cipherText (p i).env (p i).call fs₀ = result p fs₀ i from rfl, hk, count,
        toInt_errno] at hret
      omega
    | ok n => exact ⟨n, rfl⟩

theorem result_ne_nil {i : Caller} (hw : WritesOut (p i).env (p i).call fs₀) :
    result p fs₀ i ≠ [] := by
  intro he
  have hlen : (result p fs₀ i).length = fileSize₀ (p i).env (p i).call fs₀ := cipherText_length
  rw [he] at hlen
  exact hw.dataSize hlen.symm

omit [DecidableEq Path] in
theorem eq_some_of_contents {fs : FS Path} {bs : Bytes} (h : contents fs out = bs)
    (hne : bs ≠ []) : fs out = some bs := by
  unfold contents at h
  cases hf : fs out with
  | none => rw [hf] at h; exact absurd h.symm hne
  | some xs => rw [hf] at h; exact congrArg some h

/-- **Two calls with the same output file**, different from everything they read: when both have
    returned without error the file holds the complete result of one of them; or else they
    overlapped, and it holds the shorter result with the tail of the longer one behind it. -/
theorem overlapping_outputs (p : Caller → Party Path) (fs₀ : FS Path) (out : Path)
    (hp : SameOutput p out)
    (hfull : ∀ i bs n, (p i).env.kernelWrite bs = .ok n → n = bs.length) (b : Joint Path)
    (hr : Reach (jointStep p) (Joint.init fs₀) b) (hdone : ∀ i, (b.call i).pc = .done)
    (hok : ∀ i, 0 ≤ (b.call i).retVal) :
    ∃ i, b.fs out = some (result p fs₀ i) ∨
      (Overlapped p fs₀ b ∧ (result p fs₀ i).length < (result p fs₀ i.other).length ∧
        b.fs out = some (result p fs₀ i ++
          (result p fs₀ i.other).drop (result p fs₀ i).length)) := by
  have hsuccess := fun i => written_of_success hp hr (hdone i) (hok i)
  have hb : BothWrite p fs₀ := by
    refine ⟨fun i => (hsuccess i).1, fun i => ?_⟩
    obtain ⟨-, -, n, hn⟩ := hsuccess i
    rw [hn, hfull i _ n hn]
  have hfits := reach_output hp hb hr .first
  unfold FileFits at hfits
  rw [phase_written (hsuccess .first).2.1, phase_written (hsuccess Caller.first.other).2.1] at hfits
  have hne := fun i => result_ne_nil (hb.writesOut i)
  rcases hfits.final with h | h | ⟨hm, hlt, h⟩ | ⟨hm, hlt, h⟩
  · exact ⟨.first, Or.inl (eq_some_of_contents h (hne _))⟩
  · exact ⟨.second, Or.inl (eq_some_of_contents h (hne _))⟩
  · exact ⟨.first, Or.inr ⟨hm, hlt, eq_some_of_contents h (by simp [hne])⟩⟩
  · exact ⟨.second, Or.inr ⟨hm, hlt, eq_some_of_contents h (by simp [hne])⟩⟩

/-! ## Three bytes and one byte into the same file -/

/-- Two encryptions from the files 0 and 3 into the file 1, each with one thread. -/
def twoCallers : Caller → Party Nat
  | .first => ⟨.encrypt, Env.ideal, ⟨0, 1, 2, 1⟩⟩
  | .second => ⟨.encrypt, Env.ideal, ⟨3, 1, 2, 1⟩⟩

def twoInputs : FS Nat := fun p =>
  if p = 0 then some [10, 20, 30] else if p = 2 then some [7] else if p = 3 then some [40] else none

/-- Both start their thread, then the first call runs to its end, then the second. -/
def oneAfterTheOther : List (Caller × Actor) :=
  List.replicate 15 (.first, .main) ++ List.replicate 15 (.second, .main) ++
    List.replicate 4 (.first, .worker 0) ++ List.replicate 13 (.first, .main) ++
    List.replicate 2 (.second, .worker 0) ++ List.replicate 13 (.second, .main)

/-- What the schedule leaves: the output file, and of each call where it is and its return value. -/
def outcome : Option (Option Bytes × (Pc × Int) × (Pc × Int)) :=
  (exec (jointStep twoCallers) oneAfterTheOther (Joint.init twoInputs)).map fun b =>
    (b.fs 1, ((b.call .first).pc, (b.call .first).retVal),
      ((b.call .second).pc, (b.call .second).retVal))

theorem outcome_eq : outcome = some (some [47, 19, 25], (.done, 3), (.done, 1)) := by
  decide +kernel

theorem exists_outcome : ∃ b, Reach (jointStep twoCallers) (Joint.init twoInputs) b ∧
    (∀ i, (b.call i).pc = .done) ∧ (∀ i, 0 ≤ (b.call i).retVal) ∧ b.fs 1 = some [47, 19, 25] := by
  have hrun := outcome_eq
  unfold outcome at hrun
  obtain ⟨b, hexec, hb⟩ := Option.map_eq_some_iff.mp hrun
  simp only [Prod.mk.injEq] at hb
  obtain ⟨hfile, ⟨hpc₁, hret₁⟩, hpc₂, hret₂⟩ := hb
  refine ⟨b, reach_of_exec _ hexec, fun i => ?_, fun i => ?_, hfile⟩
  · cases i <;> assumption
  · cases i <;> omega

theorem result_twoCallers_ne (i : Caller) : some (result twoCallers twoInputs i) ≠ some [47, 19, 25] := by
  cases i <;> decide +kernel

/-- The two callers have overlapped. -/
theorem overlapping_outputs_two_callers :
    ∃ b, b.fs 1 = some [47, 19, 25] ∧ Overlapped twoCallers twoInputs b := by
  obtain ⟨b, hr, hdone, hok, hfile⟩ := exists_outcome
  have hp : SameOutput twoCallers 1 :=
    ⟨fun i => by cases i <;> rfl, fun i => by cases i <;> decide, fun i => by cases i <;> decide⟩
  have hfull : ∀ i bs n, (twoCallers i).env.kernelWrite bs = .ok n → n = bs.length := by
    intro i bs n h
    cases i <;> exact (Except.ok.inj h).symm
  obtain ⟨i, hone | ⟨hover, -, -⟩⟩ := overlapping_outputs twoCallers twoInputs 1 hp hfull b hr hdone hok
  · rw [hfile] at hone
    exact absurd hone.symm (result_twoCallers_ne i)
  · exact ⟨b, hfile, hover⟩

/-- Both calls succeed, and the file is the result `[47]` of the second with the last two bytes of
    the result `[13, 19, 25]` of the first. -/
theorem not_one_result_two_callers :
    ¬ ∀ b, Reach (jointStep twoCallers) (Joint.init twoInputs) b → (∀ i, (b.call i).pc = .done) →
      (∀ i, 0 ≤ (b.call i).retVal) → ∃ i, b.fs 1 = some (result twoCallers twoInputs i) := by
  intro h
  obtain ⟨b, hr, hdone, hok, hfile⟩ := exists_outcome
  obtain ⟨i, hi⟩ := h b hr hdone hok
  rw [hfile] at hi
  exact result_twoCallers_ne i hi.symm

end Overlap

end UsacSyscalls.Cipher
