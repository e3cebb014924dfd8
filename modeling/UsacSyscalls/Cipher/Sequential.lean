import UsacSyscalls.Cipher.Balance

/-!
# A cipher call as a sequential program

What a call tells its caller and the kernel log is decided by the kernel's answers alone: `callSaid`
asks them one after the other, without a thread and without a state.  It is `none` when the call
ends at a division by zero.

* `saidFrom` — what is still to be said from a statement on; `reach_said` says that what has been
  said and what is still to be said always make up `callSaid`.
* `call_sequential` — **the call with its threads refines the sequential program**: every complete
  run leaves its return value, its messages, its files and its trail.
* `reach_files` — at every moment of every run the output file is untouched, just opened or
  written, and every other file untouched.
-/

set_option autoImplicit false

namespace UsacSyscalls.Cipher

open Lib.Run Lib.Ledger

/-- The return value, the `KERN_ERR` messages and the bytes handed to `kernel_write`. -/
structure Said where
  retVal : Int
  log : List (String × List Int)
  handed : Option Bytes
  deriving DecidableEq, Repr

/-- A call that gives up with one message. -/
def gaveUp (ret : Int) (text : String) (args : List Int) : Option Said :=
  some ⟨ret, [(text, args)], none⟩

/-- The first thread that cannot be started, with its error. -/
def firstError (kthreadRun : Nat → Option Errno) (n : Nat) : Option (Nat × Errno) :=
  (List.range n).findSome? fun i => (kthreadRun i).map (i, ·)

theorem firstError_eq_none {kthreadRun : Nat → Option Errno} {n : Nat}
    (h : ∀ i < n, kthreadRun i = none) : firstError kthreadRun n = none := by
  unfold firstError
  rw [List.findSome?_eq_none_iff]
  intro i hi
  rw [h i (List.mem_range.mp hi), Option.map_none]

theorem firstError_eq_some {kthreadRun : Nat → Option Errno} {n i : Nat} {e : Errno} (hi : i < n)
    (he : kthreadRun i = some e) (hfirst : ∀ j < i, kthreadRun j = none) :
    firstError kthreadRun n = some (i, e) := by
  obtain ⟨k, rfl⟩ := Nat.exists_eq_add_of_lt hi
  unfold firstError
  have hnone := firstError_eq_none hfirst
  unfold firstError at hnone
  rw [show i + k + 1 = i + (k + 1) by omega, List.range_add, List.findSome?_append, hnone,
    Option.none_or, List.range_succ_eq_map, List.map_cons, List.findSome?_cons, Nat.add_zero, he]
  rfl

section Said

variable {Path : Type} [DecidableEq Path] (t : Texts) (env : Env) (c : Call Path) (fs₀ : FS Path)

/-! ## The sequential program -/

def writeSaid : Option Said :=
  let ret := toInt (count (env.kernelWrite (cipherText env c fs₀)))
  some ⟨ret, if ret < 0 then [(t.write, [ret])] else [], some (cipherText env c fs₀)⟩

def spawnSaid : Option Said :=
  match firstError env.kthreadRun c.threads with
  | some (i, e) => gaveUp e.ret t.thread [i, e.ret]
  | none => writeSaid t env c fs₀

def splitSaid : Option Said :=
  if toSizeT c.threadCount.toInt = 0 then none else spawnSaid t env c fs₀

def allocListsSaid : Option Said :=
  let ok := env.listOk c.threadCount
  if ok .threadList && ok .taskList && ok .fragmentList then splitSaid t env c fs₀
  else gaveUp ENOMEM.ret t.listMemory []

def readInputSaid : Option Said :=
  let ret := toInt (readCount (dataRead₀ env c fs₀))
  if ret < 0 then gaveUp ret t.readInput [ret] else allocListsSaid t env c fs₀

def allocDataSaid : Option Said :=
  if env.kmalloc .fileBuffer (fileSize₀ env c fs₀) then readInputSaid t env c fs₀
  else gaveUp ENOMEM.ret t.dataMemory []

def sizeInputSaid : Option Said :=
  if fileSize₀ env c fs₀ = 0 then gaveUp EINVAL.ret t.inputSize [fileSize₀ env c fs₀]
  else allocDataSaid t env c fs₀

def readKeySaid : Option Said :=
  let ret := toInt (readCount (keyRead₀ env c fs₀))
  if ret < 0 then gaveUp ret t.readKey [ret] else sizeInputSaid t env c fs₀

def allocKeySaid : Option Said :=
  if env.kmalloc .encryptionKey (keyLength₀ env c fs₀) then readKeySaid t env c fs₀
  else gaveUp ENOMEM.ret t.keyMemory []

def sizeKeySaid : Option Said :=
  if keyLength₀ env c fs₀ = 0 then gaveUp EINVAL.ret t.keySize [keyLength₀ env c fs₀]
  else allocKeySaid t env c fs₀

def checkFilesSaid : Option Said :=
  match env.openRead fs₀ .input c.input, env.filpOpen .output,
    env.openRead (afterOpen env c fs₀) .key c.key with
  | some e, _, _ => gaveUp e.ret t.openInput [e.ret]
  | none, some e, _ => gaveUp e.ret t.openOutput [e.ret]
  | none, none, some e => gaveUp e.ret t.openKey [e.ret]
  | none, none, none => sizeKeySaid t env c fs₀

/-- What a call says. -/
def callSaid : Option Said :=
  if Copied env then checkFilesSaid t env c fs₀ else gaveUp EFAULT.ret t.paths []

/-! ## What is still to be said -/

/-- What a call will have said, from the statement it is at and what it has said so far. -/
def saidFrom (pc : Pc) (said : Said) : Option Said :=
  match pc with
  | .copyPaths => callSaid t env c fs₀
  | .openInput => checkFilesSaid t env c fs₀
  | .openOutput => checkFilesSaid t env c fs₀
  | .openKey => checkFilesSaid t env c fs₀
  | .checkFiles => checkFilesSaid t env c fs₀
  | .sizeKey => sizeKeySaid t env c fs₀
  | .allocKey => allocKeySaid t env c fs₀
  | .readKey => readKeySaid t env c fs₀
  | .sizeInput => sizeInputSaid t env c fs₀
  | .allocData => allocDataSaid t env c fs₀
  | .readInput => readInputSaid t env c fs₀
  | .allocLists => allocListsSaid t env c fs₀
  | .split => splitSaid t env c fs₀
  | .spawn _ => spawnSaid t env c fs₀
  | .await _ => writeSaid t env c fs₀
  | .write => writeSaid t env c fs₀
  | .fault => none
  | _ => some said

/-- Whether the statement comes before the cleanup labels. -/
def Pc.isForward : Pc → Bool
  | .freeThreadList | .freeTaskList | .freeFragmentList | .freeFileBuffer | .freeEncryptionKey
  | .closeKeyFile | .closeOutputFile | .closeInputFile | .exit | .freeMemory | .done => false
  | _ => true

def State.said {Path : Type} (s : State Path) : Said := ⟨s.retVal, s.log, s.handed⟩

/-- Nothing is said before the cleanup labels. -/
def Silent (s : State Path) : Prop := s.pc.isForward = true → s.log = [] ∧ s.handed = none

variable {t env c fs₀}

theorem copied_iff : ((env.strndupUser .input).isNone && (env.strndupUser .output).isNone &&
    (env.strndupUser .key).isNone) = true ↔ Copied env := by
  simp only [Bool.and_eq_true, Option.isNone_iff_eq_none, and_assoc]
  exact ⟨fun h f => by cases f; exacts [h.1, h.2.1, h.2.2], fun h => ⟨h _, h _, h _⟩⟩

/-- A jump to a cleanup label says its message. -/
theorem said_fail {s : State Path} {label : Pc} (hlabel : label.isForward = false)
    (hsilent : s.log = [] ∧ s.handed = none) (ret : Int) (text : String) (args : List Int) :
    saidFrom t env c fs₀ (fail s label ret text args).pc (fail s label ret text args).said =
      gaveUp ret text args ∧ ((fail s label ret text args).pc.isForward = true →
        (fail s label ret text args).log = [] ∧ (fail s label ret text args).handed = none) := by
  refine ⟨?_, fun h => ?_⟩
  · simp only [fail, State.said, hsilent.1, hsilent.2, List.nil_append]
    cases label <;> first | rfl | cases hlabel
  · rw [fail, hlabel] at h
    cases h

/-- Every statement of the main thread says its part. -/
theorem mainStep_said {s s' : State Path} (h : Inv env c fs₀ s) (hlog : Silent s)
    (hs : mainStep t env c s = some s') :
    saidFrom t env c fs₀ s'.pc s'.said = saidFrom t env c fs₀ s.pc s.said ∧ Silent s' := by
  unfold mainStep at hs
  unfold Inv at h
  unfold Silent at hlog ⊢
  cases hpc : s.pc <;> simp only [hpc, Option.some.injEq, reduceCtorEq] at h hs hlog ⊢
  case await i =>
    unfold await at hs
    split at hs
    · split at hs
      · split at hs
        · cases hs; exact ⟨rfl, fun _ => hlog rfl⟩
        · cases hs
      · cases hs
    · cases hs; exact ⟨rfl, fun _ => hlog rfl⟩
  all_goals subst hs
  case copyPaths =>
    unfold copyPaths
    simp only
    split
    · rename_i hok
      exact ⟨(if_pos (copied_iff.mp hok)).symm, fun _ => hlog rfl⟩
    · rename_i hok
      have hnc : ¬ Copied env := fun h => hok (copied_iff.mpr h)
      rw [show saidFrom t env c fs₀ .copyPaths s.said = gaveUp EFAULT.ret t.paths [] from if_neg hnc]
      exact said_fail rfl (hlog rfl) _ _ _
  case openInput => exact ⟨rfl, fun _ => hlog rfl⟩
  case openOutput => exact ⟨rfl, fun _ => hlog rfl⟩
  case openKey => exact ⟨rfl, fun _ => hlog rfl⟩
  case checkFiles =>
    obtain ⟨-, -, -, hi, ho, hk⟩ := h
    unfold checkFiles
    rw [show saidFrom t env c fs₀ .checkFiles s.said = checkFilesSaid t env c fs₀ from rfl,
      checkFilesSaid, ← hi, ← ho, ← hk]
    cases s.inputFile with
    | some e => exact said_fail rfl (hlog rfl) _ _ _
    | none =>
      cases s.outputFile with
      | some e => exact said_fail rfl (hlog rfl) _ _ _
      | none =>
        cases s.keyFile with
        | some e => exact said_fail rfl (hlog rfl) _ _ _
        | none => exact ⟨rfl, fun _ => hlog rfl⟩
  case sizeKey =>
    unfold sizeKey
    simp only [h.2.1]
    split
    · rename_i h0
      rw [show saidFrom t env c fs₀ .sizeKey s.said =
        gaveUp EINVAL.ret t.keySize [keyLength₀ env c fs₀] from if_pos h0]
      exact said_fail rfl (hlog rfl) _ _ _
    · rename_i h0; exact ⟨(if_neg h0).symm, fun _ => hlog rfl⟩
  case allocKey =>
    unfold allocKey
    simp only [h.2.2.2.1]
    split
    · rename_i hk; exact ⟨(if_pos hk).symm, fun _ => hlog rfl⟩
    · rename_i hk
      rw [show saidFrom t env c fs₀ .allocKey s.said = gaveUp ENOMEM.ret t.keyMemory [] from
        if_neg hk]
      exact said_fail rfl (hlog rfl) _ _ _
  case readKey =>
    unfold readKey
    simp only [h.2.1, h.2.2.2.1]
    split
    · rename_i hr
      rw [show saidFrom t env c fs₀ .readKey s.said = gaveUp (toInt (readCount (keyRead₀ env c fs₀)))
        t.readKey [toInt (readCount (keyRead₀ env c fs₀))] from if_pos hr]
      exact said_fail rfl (hlog rfl) _ _ _
    · rename_i hr; exact ⟨(if_neg hr).symm, fun _ => hlog rfl⟩
  case sizeInput =>
    unfold sizeInput
    simp only [h.1.fs]
    split
    · rename_i h0
      rw [show saidFrom t env c fs₀ .sizeInput s.said =
        gaveUp EINVAL.ret t.inputSize [fileSize₀ env c fs₀] from if_pos h0]
      exact said_fail rfl (hlog rfl) _ _ _
    · rename_i h0; exact ⟨(if_neg h0).symm, fun _ => hlog rfl⟩
  case allocData =>
    unfold allocData
    simp only [h.2.2.1]
    split
    · rename_i hk; exact ⟨(if_pos hk).symm, fun _ => hlog rfl⟩
    · rename_i hk
      rw [show saidFrom t env c fs₀ .allocData s.said = gaveUp ENOMEM.ret t.dataMemory [] from
        if_neg hk]
      exact said_fail rfl (hlog rfl) _ _ _
  case readInput =>
    unfold readInput
    simp only [h.1.fs, h.2.2.1]
    split
    · rename_i hr
      rw [show saidFrom t env c fs₀ .readInput s.said =
        gaveUp (toInt (readCount (dataRead₀ env c fs₀))) t.readInput
          [toInt (readCount (dataRead₀ env c fs₀))] from if_pos hr]
      exact said_fail rfl (hlog rfl) _ _ _
    · rename_i hr; exact ⟨(if_neg hr).symm, fun _ => hlog rfl⟩
  case allocLists =>
    unfold allocLists
    simp only
    split
    · rename_i hok; exact ⟨(if_pos hok).symm, fun _ => hlog rfl⟩
    · rename_i hok
      rw [show saidFrom t env c fs₀ .allocLists s.said = gaveUp ENOMEM.ret t.listMemory [] from
        if_neg hok]
      exact said_fail rfl (hlog rfl) _ _ _
  case split =>
    unfold split
    simp only
    split
    · rename_i h0; exact ⟨(if_pos h0).symm, fun _ => hlog rfl⟩
    · rename_i h0; exact ⟨(if_neg h0).symm, fun _ => hlog rfl⟩
  case spawn i =>
    have hle := h.le
    unfold spawn
    split
    · rename_i hlt
      cases he : env.kthreadRun i with
      | some e =>
        have hfirst : firstError env.kthreadRun c.threads = some (i, e) :=
          firstError_eq_some (by unfold Call.threads; omega) he h.started
        rw [show saidFrom t env c fs₀ (.spawn i) s.said = spawnSaid t env c fs₀ from rfl,
          spawnSaid, hfirst]
        exact said_fail rfl (hlog rfl) _ _ _
      | none => exact ⟨rfl, fun _ => hlog rfl⟩
    · have hnone : firstError env.kthreadRun c.threads = none :=
        firstError_eq_none fun j hj => h.started j (by unfold Call.threads at hj; omega)
      rw [show saidFrom t env c fs₀ (.spawn i) s.said = spawnSaid t env c fs₀ from rfl, spawnSaid,
        hnone]
      exact ⟨rfl, fun _ => hlog rfl⟩
  case write =>
    have hbuf := h.1.fileBuffer_eq h.2
    unfold write
    simp only [hbuf]
    split
    · rename_i hr
      refine ⟨?_, fun h => absurd h Bool.false_ne_true⟩
      simp only [fail, saidFrom, State.said, (hlog rfl).1, writeSaid, if_pos hr, List.nil_append]
    · rename_i hr
      refine ⟨?_, fun h => absurd h Bool.false_ne_true⟩
      simp only [saidFrom, State.said, (hlog rfl).1, writeSaid, if_neg hr]
  all_goals exact ⟨rfl, fun h => absurd h Bool.false_ne_true⟩

theorem step_said {op : Mode} {a : Actor} {s s' : State Path} (h : Inv env c fs₀ s)
    (hlog : Silent s) (hs : step op env c a s = some s') :
    saidFrom op.texts env c fs₀ s'.pc s'.said = saidFrom op.texts env c fs₀ s.pc s.said ∧
      Silent s' := by
  cases a with
  | main => exact mainStep_said h hlog hs
  | worker k =>
    obtain ⟨w, _, _, ⟨_, rfl⟩ | ⟨_, rfl⟩⟩ := workerStep_cases hs
    · exact ⟨rfl, hlog⟩
    · exact ⟨rfl, hlog⟩

/-- **What has been said and what is still to be said make up what the sequential program says**,
    whatever the interleaving. -/
theorem reach_said {op : Mode} {s : State Path}
    (h : Reach (step op env c) (State.init fs₀) s) :
    saidFrom op.texts env c fs₀ s.pc s.said = callSaid op.texts env c fs₀ := by
  have := h.invariant (I := fun s => Inv env c fs₀ s ∧ Silent s ∧
      saidFrom op.texts env c fs₀ s.pc s.said = callSaid op.texts env c fs₀)
    ⟨init_inv env c fs₀, fun _ => ⟨rfl, rfl⟩, rfl⟩ ?_
  · exact this.2.2
  · intro a s s' ⟨hi, hlog, hsaid⟩ hs
    obtain ⟨hsame, hlog'⟩ := step_said hi hlog hs
    exact ⟨step_inv hi hs, hlog', hsame.trans hsaid⟩

/-! ## The files -/

/-- How many of the files' three states a call has been through. -/
inductive Files (env : Env) (c : Call Path) (fs₀ fs : FS Path) : Prop where
  | before (hfs : fs = fs₀)
  | opened (copied : Copied env) (hfs : fs = afterOpen env c fs₀)
  | written (writesOut : WritesOut env c fs₀)
      (hfs : fs = env.written (afterOpen env c fs₀) c.output (cipherText env c fs₀))

theorem step_files {op : Mode} {a : Actor} {s s' : State Path} (hi : Inv env c fs₀ s)
    (h : Files env c fs₀ s.fs) (hs : step op env c a s = some s') : Files env c fs₀ s'.fs := by
  cases a with
  | worker k =>
    obtain ⟨w, _, _, ⟨_, rfl⟩ | ⟨_, rfl⟩⟩ := workerStep_cases hs
    · exact h
    · exact h
  | main =>
    rcases mainStep_cases hs with ⟨hpc, rfl⟩ | ⟨i, _, rfl⟩ | ⟨hpc, rfl⟩ | haside
    · unfold Inv at hi
      rw [hpc] at hi
      refine .opened hi.2.2.1 ?_
      simp only [openOutput, hi.2.1]
      rfl
    · rwa [spawn_fs]
    · unfold Inv at hi
      rw [hpc] at hi
      have hstarted : ∀ j : Nat, (j : Int) < c.threadCount.toInt → env.kthreadRun j = none :=
        fun j hj => hi.1.started j (by unfold Call.threads; omega)
      refine .written ⟨hi.1.ready, hi.1.pos, hstarted⟩ ?_
      rw [write_fs, hi.1.fs, hi.1.fileBuffer_eq hi.2]
    · rwa [haside.fs]

theorem reach_filesState {op : Mode} {s : State Path}
    (h : Reach (step op env c) (State.init fs₀) s) : Files env c fs₀ s.fs :=
  (h.invariant (I := fun s => Inv env c fs₀ s ∧ Files env c fs₀ s.fs)
    ⟨init_inv env c fs₀, .before rfl⟩
    fun _ _ _ ⟨hi, hf⟩ hs => ⟨step_inv hi hs, step_files hi hf hs⟩).2

/-- The bytes of the buffer that `kernel_write` stores. -/
def Env.stored (env : Env) (buf : Bytes) : Bytes :=
  match env.kernelWrite buf with
  | .error _ => []
  | .ok n => buf.take n

theorem afterOpen_of_ne {p : Path} (h : p ≠ c.output) : afterOpen env c fs₀ p = fs₀ p := by
  unfold afterOpen Env.openWrite
  split
  · exact Function.update_of_ne h _ _
  · rfl

theorem written_of_ne {fs : FS Path} {p out : Path} (h : p ≠ out) (buf : Bytes) :
    env.written fs out buf p = fs p := by
  unfold Env.written
  cases env.kernelWrite buf with
  | error e => rfl
  | ok n => exact Function.update_of_ne h _ _

theorem WritesOut.written_stored (h : WritesOut env c fs₀) :
    env.written (afterOpen env c fs₀) c.output (cipherText env c fs₀) c.output =
      some (env.stored (cipherText env c fs₀)) := by
  have hopen : afterOpen env c fs₀ c.output = some [] := by
    simp [afterOpen, Env.openWrite, h.output]
  unfold Env.written Env.stored
  cases env.kernelWrite (cipherText env c fs₀) with
  | error e => exact hopen
  | ok n => simp [contents, hopen, overwrite]

/-- **The files at every moment**: in every state of every run, all files but the output file are
    as they were, and the output file is untouched, empty, or holds what `kernel_write` stored of
    the complete cipher text: never a part that only some of the threads have worked on. -/
theorem reach_files {op : Mode} {s : State Path}
    (h : Reach (step op env c) (State.init fs₀) s) :
    (∀ p, p ≠ c.output → s.fs p = fs₀ p) ∧
      (s.fs c.output = fs₀ c.output ∨ s.fs c.output = some [] ∨
        WritesOut env c fs₀ ∧ s.fs c.output = some (env.stored (cipherText env c fs₀))) := by
  cases reach_filesState h with
  | before hfs => exact ⟨fun p _ => by rw [hfs], .inl (by rw [hfs])⟩
  | opened _ hfs =>
    refine ⟨fun p hp => by rw [hfs, afterOpen_of_ne hp], ?_⟩
    rw [hfs, afterOpen, Env.openWrite]
    split
    · exact .inr (.inl (Function.update_self ..))
    · exact .inl rfl
  | written hw hfs =>
    refine ⟨fun p hp => by rw [hfs, written_of_ne hp, afterOpen_of_ne hp], .inr (.inr ⟨hw, ?_⟩)⟩
    rw [hfs, hw.written_stored]

/-- A call right after it has opened its files. -/
theorem reach_files_opened : ∃ s : State Nat,
    exec (step .encrypt Env.ideal (⟨0, 1, 2, 2⟩ : Call Nat)) (List.replicate 5 .main)
      (State.init fun p => if p = 0 then some [1, 2] else if p = 2 then some [3] else none) =
        some s ∧ s.fs 1 = some [] ∧ ∀ p, p ≠ 1 →
          s.fs p = if p = 0 then some [1, 2] else if p = 2 then some [3] else none := by
  obtain ⟨s, hs, hfs⟩ : ∃ s : State Nat,
      exec (step .encrypt Env.ideal (⟨0, 1, 2, 2⟩ : Call Nat)) (List.replicate 5 .main)
        (State.init fun p => if p = 0 then some [1, 2] else if p = 2 then some [3] else none) =
          some s ∧ s.fs 1 = some [] := ⟨_, rfl, rfl⟩
  exact ⟨s, hs, hfs, (reach_files (reach_of_exec _ hs)).1⟩

/-! ## The refinement -/

/-- The files after a call that has handed this to `kernel_write`. -/
def filesAfter (env : Env) (c : Call Path) (fs₀ : FS Path) (handed : Option Bytes) : FS Path :=
  match handed with
  | some buf => env.written (afterOpen env c fs₀) c.output buf
  | none => if Copied env then afterOpen env c fs₀ else fs₀

theorem Settled.filesAfter_eq {s : State Path} (h : Settled env c fs₀ s) :
    s.fs = filesAfter env c fs₀ s.handed := by
  rcases h with h | h
  · rw [h.handed, filesAfter]
    rcases h.fs with ⟨hc, hfs⟩ | ⟨hc, hfs⟩
    · rw [if_pos hc, hfs]
    · rw [if_neg hc, hfs]
  · rw [h.handed, h.fs]
    rfl

/-- How a call ends that the sequential program says this of. -/
def EndsAs (env : Env) (c : Call Path) (fs₀ : FS Path) (said : Option Said) (s : State Path) :
    Prop :=
  s.trail = callTrail env c fs₀ ∧
    match said with
    | none => s.pc = .fault
    | some said => s.pc = .done ∧ s.said = said ∧ s.fs = filesAfter env c fs₀ said.handed

theorem Ended.endsAs {op : Mode} {s : State Path}
    (hr : Reach (step op env c) (State.init fs₀) s) (hend : Ended env c fs₀ s) :
    EndsAs env c fs₀ (callSaid op.texts env c fs₀) s := by
  have hsaid := reach_said hr
  have htrail := reach_trail hr
  rcases hend with ⟨hpc, hset⟩ | ⟨hpc, -⟩
  · rw [hpc] at hsaid htrail
    rw [← hsaid]
    exact ⟨by simpa only [trailFrom, List.append_nil] using htrail, hpc, rfl, hset.filesAfter_eq⟩
  · rw [hpc] at hsaid htrail
    rw [← hsaid]
    exact ⟨by simpa only [trailFrom, List.append_nil] using htrail, hpc⟩

/-- **Refinement**: for every kernel and all files, every run of a call ends as the sequential
    program says, whatever the interleaving of its threads. -/
theorem call_sequential (op : Mode) (env : Env) (c : Call Path) (fs₀ : FS Path) :
    Ensures (step op env c) (EndsAs env c fs₀ (callSaid op.texts env c fs₀)) (State.init fs₀) :=
  (call_ensures op env c fs₀).mono fun _ ⟨hr, hend⟩ => hend.endsAs hr

/-! ## What the caller can rely on -/

/-- A call that prints no `KERN_ERR` message returns a value that is not negative and has handed the
    complete cipher text over; a call that fails prints exactly one. -/
def Honest (text : Bytes) (said : Said) : Prop :=
  (0 ≤ said.retVal ∧ said.log = [] ∧ said.handed = some text) ∨
    (said.retVal < 0 ∧ ∃ message, said.log = [message])

theorem honest_gaveUp {text : Bytes} {ret : Int} (h : ret < 0) (message : String)
    (args : List Int) : ∀ said ∈ gaveUp ret message args, Honest text said := by
  intro said hsaid
  cases hsaid
  exact .inr ⟨h, _, rfl⟩

theorem honest_ite {p : Prop} [Decidable p] {text : Bytes} {a b : Option Said}
    (ha : p → ∀ said ∈ a, Honest text said) (hb : ¬ p → ∀ said ∈ b, Honest text said) :
    ∀ said ∈ if p then a else b, Honest text said := by
  split
  · exact ha ‹_›
  · exact hb ‹_›

theorem writeSaid_honest :
    ∀ said ∈ writeSaid t env c fs₀, Honest (cipherText env c fs₀) said := by
  intro said hsaid
  cases hsaid
  by_cases hr : toInt (count (env.kernelWrite (cipherText env c fs₀))) < 0
  · exact .inr ⟨hr, _, if_pos hr⟩
  · exact .inl ⟨by simpa using hr, if_neg hr, rfl⟩

theorem allocListsSaid_honest :
    ∀ said ∈ allocListsSaid t env c fs₀, Honest (cipherText env c fs₀) said := by
  refine honest_ite (fun _ => honest_ite (fun _ => nofun) fun _ => ?_)
    fun _ => honest_gaveUp ENOMEM.ret_neg _ _
  unfold spawnSaid
  cases firstError env.kthreadRun c.threads with
  | some failure => exact honest_gaveUp failure.2.ret_neg _ _
  | none => exact writeSaid_honest

theorem sizeKeySaid_honest :
    ∀ said ∈ sizeKeySaid t env c fs₀, Honest (cipherText env c fs₀) said := by
  refine honest_ite (fun _ => honest_gaveUp EINVAL.ret_neg _ _) fun _ => ?_
  refine honest_ite (fun _ => ?_) fun _ => honest_gaveUp ENOMEM.ret_neg _ _
  refine honest_ite (fun hr => honest_gaveUp hr _ _) fun _ => ?_
  refine honest_ite (fun _ => honest_gaveUp EINVAL.ret_neg _ _) fun _ => ?_
  refine honest_ite (fun _ => ?_) fun _ => honest_gaveUp ENOMEM.ret_neg _ _
  exact honest_ite (fun hr => honest_gaveUp hr _ _) fun _ => allocListsSaid_honest

theorem callSaid_honest :
    ∀ said ∈ callSaid t env c fs₀, Honest (cipherText env c fs₀) said := by
  refine honest_ite (fun _ => ?_) fun _ => honest_gaveUp EFAULT.ret_neg _ _
  unfold checkFilesSaid
  cases env.openRead fs₀ .input c.input with
  | some e => exact honest_gaveUp e.ret_neg _ _
  | none =>
    cases env.filpOpen .output with
    | some e => exact honest_gaveUp e.ret_neg _ _
    | none =>
      cases env.openRead (afterOpen env c fs₀) .key c.key with
      | some e => exact honest_gaveUp e.ret_neg _ _
      | none => exact sizeKeySaid_honest

/-- **One error message for each failure**: a call that returns has either printed no `KERN_ERR`
    message, returned a count and handed the complete cipher text to `kernel_write`, or printed
    exactly one `KERN_ERR` message and returned a negative value; in every interleaving.  The
    `KERN_INFO` lines, which it prints on every path, are not counted. -/
theorem call_honest (op : Mode) (env : Env) (c : Call Path) (fs₀ : FS Path) :
    Ensures (step op env c) (fun s => s.pc = .done → Honest (cipherText env c fs₀) s.said)
      (State.init fs₀) := by
  refine (call_ensures op env c fs₀).mono fun s ⟨hr, _⟩ hpc => ?_
  have hsaid := reach_said hr
  rw [hpc] at hsaid
  exact callSaid_honest s.said hsaid.symm

end Said

end UsacSyscalls.Cipher
