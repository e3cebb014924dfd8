import UsacSyscalls.Cipher.RoundTrip

/-!
# What the user programs report

Reference model of `ecrypt_app.c` and `dencrypt_app.c`, which differ in the system call they make
and in the word they print.

* `reach_retVal` — a call returns no number below −4095, so libc turns every error into −1.
* `reportsTruthfully_iff` — the success message means that the output file is complete iff
  `kernel_write`, in a call that gets there, fails or stores every byte.
-/

set_option autoImplicit false

namespace UsacSyscalls.Cipher

open Lib.Run

/-! ## The programs -/

/-- One result of `getopt(argc, argv, "p:o:j:k:")`. -/
inductive Opt (Path : Type) where
  | p (optarg : Path)
  | o (optarg : Path)
  | j (optarg : Path)
  | k (optarg : Path)
  | other

/-- The local variables of `main` that the options fill in. -/
structure Args (Path : Type) where
  inputFile : Option Path
  outputFile : Option Path
  keyFile : Option Path
  numThreadsFile : Option Path

/-- How a program ends: its exit status and the last line it prints. -/
structure Exit where
  status : Nat
  text : String
  args : List Int
  deriving DecidableEq, Repr

def EXIT_SUCCESS : Nat := 0
def EXIT_FAILURE : Nat := 1

def printUsage : Exit :=
  ⟨EXIT_FAILURE, "Usage: %s -p <input_file> -o <output_file> -j <num_threads_file> -k <key_file>\n", []⟩

section Main

variable {Path : Type}

/-- The loop over the options; `none` on an option it does not know. -/
def parseOptions : List (Opt Path) → Args Path → Option (Args Path)
  | [], a => some a
  | .p f :: opts, a => parseOptions opts { a with inputFile := some f }
  | .o f :: opts, a => parseOptions opts { a with outputFile := some f }
  | .j f :: opts, a => parseOptions opts { a with numThreadsFile := some f }
  | .k f :: opts, a => parseOptions opts { a with keyFile := some f }
  | .other :: _, _ => none

/-- `read_num_threads_from_file`; `scan` is what `fopen` and `fscanf` find in a file. -/
def readNumThreadsFromFile (scan : Path → Option Int32) (filename : Path) : Int32 :=
  (scan filename).getD (-1)

/-- `main` up to the system call. -/
def prepare (scan : Path → Option Int32) (opts : List (Opt Path)) : Except Exit (Call Path) :=
  match parseOptions opts ⟨none, none, none, none⟩ with
  | some ⟨some inputFile, some outputFile, some keyFile, some numThreadsFile⟩ =>
    let numThreads := readNumThreadsFromFile scan numThreadsFile
    if numThreads.toInt ≤ 0 then
      .error ⟨EXIT_FAILURE, "Invalid number of threads: %d\n", [numThreads.toInt]⟩
    else .ok ⟨inputFile, outputFile, keyFile, numThreads⟩
  | _ => .error printUsage

/-- The `syscall` function: the numbers from −4095 to −1 set `errno` and become −1. -/
def libcSyscall (ret : Int) : Int := if -4095 ≤ ret ∧ ret < 0 then -1 else ret

def Mode.success : Mode → Exit
  | .encrypt => ⟨EXIT_SUCCESS, "File encrypted successfully.\n", []⟩
  | .decrypt => ⟨EXIT_SUCCESS, "File dencrypted successfully.\n", []⟩

/-- `main` after the system call. -/
def report (op : Mode) (ret : Int) : Exit :=
  if libcSyscall ret = -1 then ⟨EXIT_FAILURE, "Error executing syscall", []⟩ else op.success

theorem libcSyscall_eq_neg_one {ret : Int} (h : -4095 ≤ ret) : libcSyscall ret = -1 ↔ ret < 0 := by
  unfold libcSyscall
  split <;> omega

/-- The success message is printed for the numbers that are no error. -/
theorem report_success (op : Mode) {ret : Int} (h : -4095 ≤ ret) :
    report op ret = op.success ↔ 0 ≤ ret := by
  have herr := libcSyscall_eq_neg_one h
  unfold report
  split
  · rename_i hneg
    have hne : (⟨EXIT_FAILURE, "Error executing syscall", []⟩ : Exit) ≠ op.success := by
      cases op <;> decide
    exact iff_of_false hne (by omega)
  · rename_i hpos
    exact iff_of_true rfl (by omega)

end Main

/-! ## No error is mistaken for a result -/

/-- The return value of a transfer of at most `KMALLOC_MAX_SIZE` bytes. -/
theorem toInt_readCount_ge {r : Except Errno Bytes}
    (h : ∀ bs, r = .ok bs → bs.length ≤ KMALLOC_MAX_SIZE) : -4095 ≤ toInt (readCount r) := by
  cases r with
  | error e =>
    show -4095 ≤ toInt e.ret
    rw [toInt_errno]
    exact e.ret_ge
  | ok bs =>
    have hlen := h bs rfl
    show -4095 ≤ toInt (bs.length : Int)
    rw [toInt_natCast (by unfold KMALLOC_MAX_SIZE at hlen; omega)]
    omega

section Reports

variable {Path : Type} [DecidableEq Path] {env : Env} {c : Call Path} {fs₀ : FS Path}

/-- What `kernel_write` returns for the cipher text is an error or the number of bytes stored. -/
theorem WritesOut.retVal_cases (hw : WritesOut env c fs₀) :
    (∃ e, env.kernelWrite (cipherText env c fs₀) = .error e ∧
        toInt (count (env.kernelWrite (cipherText env c fs₀))) = e.ret) ∨
      ∃ w, env.kernelWrite (cipherText env c fs₀) = .ok w ∧
        toInt (count (env.kernelWrite (cipherText env c fs₀))) = w := by
  cases hk : env.kernelWrite (cipherText env c fs₀) with
  | error e => exact Or.inl ⟨e, rfl, toInt_errno e⟩
  | ok w =>
    have hle := env.kernelWrite_le _ _ hk
    have hsize := hw.fileSize_le
    rw [cipherText_length] at hle
    exact Or.inr ⟨w, rfl, toInt_natCast (by unfold KMALLOC_MAX_SIZE at hsize; omega)⟩

theorem mainStep_retVal {t : Texts} {s s' : State Path} (hi : Inv env c fs₀ s)
    (h : -4095 ≤ s.retVal) (hs : mainStep t env c s = some s') : -4095 ≤ s'.retVal := by
  unfold Inv at hi
  rcases mainStep_cases hs with ⟨-, rfl⟩ | ⟨i, -, rfl⟩ | ⟨hpc, rfl⟩ | hside
  · exact h
  · unfold spawn
    split
    · split
      · exact Errno.ret_ge _
      · exact h
    · exact h
  · simp only [hpc] at hi
    have hready := hi.1.ready
    have hstarted : ∀ j : Nat, (j : Int) < c.threadCount.toInt → env.kthreadRun j = none :=
      fun j hj => hi.1.started j (by unfold Call.threads; omega)
    have hw : WritesOut env c fs₀ := ⟨hready, hi.1.pos, hstarted⟩
    rw [write_retVal, hi.1.fileBuffer_eq hi.2]
    rcases hw.retVal_cases with ⟨e, -, he⟩ | ⟨w, -, hcount⟩
    · rw [he]; exact e.ret_ge
    · rw [hcount]; omega
  · rcases hside.retVal with hr | ⟨e, hr⟩ | ⟨hpc, hr⟩ | ⟨hpc, hr⟩ <;> rw [hr]
    · exact h
    · exact e.ret_ge
    · simp only [hpc] at hi
      obtain ⟨_, _, _, hlen, _, hm, _⟩ := hi
      refine toInt_readCount_ge fun bs hbs => ?_
      have hle := env.kernelRead_le .key (contents s.fs c.key) s.keyLength bs hbs
      rw [hlen] at hle
      exact hle.trans (Env.size_le_of_kmalloc hm)
    · simp only [hpc] at hi
      obtain ⟨_, _, hsize, _, hm, _⟩ := hi
      refine toInt_readCount_ge fun bs hbs => ?_
      have hle := env.kernelRead_le .input (contents s.fs c.input) s.fileSize bs hbs
      rw [hsize] at hle
      exact hle.trans (Env.size_le_of_kmalloc hm)

/-- **No error is mistaken for a result**: whatever the kernel answers and however the threads
    interleave, the number a call returns is at least −4095. -/
theorem reach_retVal {op : Mode} {s : State Path}
    (hr : Reach (step op env c) (State.init fs₀) s) : -4095 ≤ s.retVal := by
  have hstart : Inv env c fs₀ (State.init fs₀) ∧ -4095 ≤ (State.init fs₀).retVal :=
    ⟨init_inv env c fs₀, by simp [State.init]⟩
  refine (hr.invariant (I := fun s => Inv env c fs₀ s ∧ -4095 ≤ s.retVal) hstart ?_).2
  intro a t t' ⟨hi, ht⟩ hs
  refine ⟨step_inv hi hs, ?_⟩
  cases a with
  | main => exact mainStep_retVal hi ht hs
  | worker k =>
    obtain ⟨w, _, _, ⟨_, rfl⟩ | ⟨_, rfl⟩⟩ := workerStep_cases hs <;> exact ht

/-! ## Full reads -/

/-- Every read that succeeds brings the whole file. -/
structure FullReads (env : Env) : Prop where
  size : ∀ f bs, env.iSizeRead f bs = bs.length
  reads : ∀ f bs r, env.kernelRead f bs bs.length = .ok r → r = bs

/-- A read whose return value is not negative has brought something. -/
theorem ok_of_readCount {r : Except Errno Bytes} (h : 0 ≤ toInt (readCount r)) :
    ∃ bs, r = .ok bs := by
  cases r with
  | error e =>
    have hneg := e.ret_neg
    rw [show readCount (.error e) = e.ret from rfl, toInt_errno] at h
    omega
  | ok bs => exact ⟨bs, rfl⟩

theorem WritesOut.afterOpen_eq (hw : WritesOut env c fs₀) :
    afterOpen env c fs₀ = Function.update fs₀ c.output (some []) := by
  simp [afterOpen, Env.openWrite, hw.output]

/-- A file that is not empty after the output file was opened is not the output file. -/
theorem WritesOut.ne_output (hw : WritesOut env c fs₀) {p : Path}
    (h : (contents (afterOpen env c fs₀) p).length ≠ 0) : p ≠ c.output := by
  rintro rfl
  rw [hw.afterOpen_eq, contents, Function.update_self] at h
  exact h rfl

/-- **With full reads the cipher text is the cipher of the two files** before the call. -/
theorem FullReads.cipherText_eq (hf : FullReads env) (hw : WritesOut env c fs₀) :
    ∃ D K, fs₀ c.input = some D ∧ fs₀ c.key = some K ∧ fileSize₀ env c fs₀ = D.length ∧
      cipherText env c fs₀ = xorWith K D := by
  have hinput : c.input ≠ c.output := hw.ne_output (by rw [← hf.size .input]; exact hw.dataSize)
  have hkey : c.key ≠ c.output := hw.ne_output (by rw [← hf.size .key]; exact hw.keySize)
  have hopen : ∀ {fs : FS Path} {f : Operand} {p : Path}, env.openRead fs f p = none →
      ∃ bs, fs p = some bs := by
    intro fs f p h
    unfold Env.openRead at h
    split at h
    · cases h
    · split at h
      · cases h
      · rename_i hp; simpa [Option.isNone_iff_eq_none, Option.ne_none_iff_exists'] using hp
  obtain ⟨D, hD⟩ := hopen hw.input
  obtain ⟨K, hK⟩ := hopen hw.key
  rw [hw.afterOpen_eq, Function.update_of_ne hkey] at hK
  have hcD : contents (afterOpen env c fs₀) c.input = D := by
    rw [hw.afterOpen_eq, contents, Function.update_of_ne hinput, hD]; rfl
  have hcK : contents (afterOpen env c fs₀) c.key = K := by
    rw [hw.afterOpen_eq, contents, Function.update_of_ne hkey, hK]; rfl
  have hsize : fileSize₀ env c fs₀ = D.length := by rw [fileSize₀, hcD, hf.size]
  have hlen : keyLength₀ env c fs₀ = K.length := by rw [keyLength₀, hcK, hf.size]
  have hdata : data₀ env c fs₀ = D := by
    obtain ⟨bs, hbs⟩ := ok_of_readCount hw.dataRead
    have hread := hbs
    rw [dataRead₀, hsize, hcD] at hread
    have hall := hf.reads _ _ _ hread
    rw [data₀, hbs, hsize]
    exact (overwrite_all (by simp [readBytes, hall])).trans hall
  have hkeyBuf : key₀ env c fs₀ = K := by
    obtain ⟨bs, hbs⟩ := ok_of_readCount hw.keyRead
    have hread := hbs
    rw [keyRead₀, hlen, hcK] at hread
    have hall := hf.reads _ _ _ hread
    rw [key₀, hbs, hlen]
    exact (overwrite_all (by simp [readBytes, hall])).trans hall
  refine ⟨D, K, hD, hK, hsize, ?_⟩
  rw [cipherText_eq_xorWith, hdata, hkeyBuf]

/-! ## The report and the file -/

/-- Whenever the program prints its success message, the output file is the cipher of the two
    input files. -/
def ReportsTruthfully (op : Mode) (env : Env) (scan : Path → Option Int32) (opts : List (Opt Path))
    (fs₀ : FS Path) : Prop :=
  ∀ c, prepare scan opts = .ok c → ∀ s, Reach (step op env c) (State.init fs₀) s → s.pc = .done →
    report op s.retVal = op.success →
      ∃ D K, fs₀ c.input = some D ∧ fs₀ c.key = some K ∧ s.fs c.output = some (xorWith K D)

/-- What a successful `kernel_write` leaves in the output file. -/
theorem WritesOut.written_output (hw : WritesOut env c fs₀) {w : Nat}
    (hk : env.kernelWrite (cipherText env c fs₀) = .ok w) :
    env.written (afterOpen env c fs₀) c.output (cipherText env c fs₀) c.output =
      some ((cipherText env c fs₀).take w) := by
  simp only [Env.written, hk, hw.afterOpen_eq, contents, overwrite, Function.update_self,
    Option.getD_some, List.drop_nil, List.append_nil]

/-- The file is complete if `kernel_write` stored every byte. -/
theorem truthful_of_stored {op : Mode} (hf : FullReads env)
    (h : WritesOut env c fs₀ →
      ∀ w, env.kernelWrite (cipherText env c fs₀) = .ok w → w = fileSize₀ env c fs₀)
    {s : State Path} (hr : Reach (step op env c) (State.init fs₀) s) (hdone : s.pc = .done)
    (hsuccess : report op s.retVal = op.success) :
    ∃ D K, fs₀ c.input = some D ∧ fs₀ c.key = some K ∧ s.fs c.output = some (xorWith K D) := by
  have hret := (report_success op (reach_retVal hr)).mp hsuccess
  have hinv := reach_inv hr
  unfold Inv at hinv
  simp only [hdone] at hinv
  rcases hinv with hfail | hwr
  · have := hfail.negative
    omega
  · have hw := hwr.writesOut
    obtain ⟨D, K, hD, hK, hsize, htext⟩ := hf.cipherText_eq hw
    refine ⟨D, K, hD, hK, ?_⟩
    rcases hw.retVal_cases with ⟨e, -, he⟩ | ⟨w, hk, -⟩
    · have hneg := e.ret_neg
      rw [hwr.retVal, he] at hret
      omega
    · have hlen : w = (cipherText env c fs₀).length := (h hw w hk).trans cipherText_length.symm
      rw [hwr.fs, hw.written_output hk, hlen, List.take_length, htext]

/-- **A short count is reported as a success**, over an incomplete file. -/
theorem stored_of_truthful {op : Mode} (hf : FullReads env) (hw : WritesOut env c fs₀) {w : Nat}
    (hk : env.kernelWrite (cipherText env c fs₀) = .ok w)
    (h : ∀ s, Reach (step op env c) (State.init fs₀) s → s.pc = .done →
      report op s.retVal = op.success →
        ∃ D K, fs₀ c.input = some D ∧ fs₀ c.key = some K ∧ s.fs c.output = some (xorWith K D)) :
    w = fileSize₀ env c fs₀ := by
  have hpos := hw.pos
  have hruns := call_ensures op env c fs₀
  obtain ⟨s, -, -, hr, hend⟩ := hruns.exists_final
  rcases hend with ⟨hdone, hset⟩ | ⟨_, _, h0⟩
  · rcases hset with hfail | hwr
    · exact absurd hw hfail.not_writesOut
    · have hret : s.retVal = w := by
        rcases hw.retVal_cases with ⟨e, he, -⟩ | ⟨w', hk', hcount⟩
        · rw [hk] at he; cases he
        · rw [hk] at hk'; cases hk'; rw [hwr.retVal, hcount]
      have hsuccess := (report_success op (reach_retVal hr)).mpr (by omega)
      obtain ⟨D, K, hD, -, hout⟩ := h s hr hdone hsuccess
      obtain ⟨D', -, hD', -, hsize, -⟩ := hf.cipherText_eq hw
      rw [hD] at hD'
      cases hD'
      rw [hwr.fs, hw.written_output hk, Option.some.injEq] at hout
      have hlen := congrArg List.length hout
      have hle := env.kernelWrite_le _ _ hk
      rw [cipherText_length] at hle
      rw [List.length_take, cipherText_length, xorWith_length] at hlen
      omega
  · omega

/-- **Reported success means a complete file** iff `kernel_write`, in the call the program makes
    and if that gets so far, fails or stores every byte. -/
theorem reportsTruthfully_iff (op : Mode) (env : Env) (hf : FullReads env)
    (scan : Path → Option Int32) (opts : List (Opt Path)) (fs₀ : FS Path) :
    ReportsTruthfully op env scan opts fs₀ ↔
      ∀ c, prepare scan opts = .ok c → WritesOut env c fs₀ →
        ∀ w, env.kernelWrite (cipherText env c fs₀) = .ok w → w = fileSize₀ env c fs₀ := by
  constructor
  · intro h c hc hw w hk
    exact stored_of_truthful hf hw hk (h c hc)
  · intro h c hc s hr hdone hsuccess
    exact truthful_of_stored hf (h c hc) hr hdone hsuccess

theorem Env.ideal_fullReads : FullReads Env.ideal :=
  ⟨fun _ _ => rfl, fun _ bs r h => by
    simp only [Env.ideal, List.take_length, Except.ok.injEq] at h
    exact h.symm⟩

/-- With a kernel that stores every byte the report is true. -/
theorem reportsTruthfully_ideal :
    ReportsTruthfully .encrypt Env.ideal (fun _ => some 2) [.p 0, .o 1, .j 3, .k 2]
      (fun p : Nat => if p = 0 then some [10, 20, 30] else if p = 2 then some [7, 9] else none) := by
  refine (reportsTruthfully_iff .encrypt Env.ideal Env.ideal_fullReads _ _ _).mpr ?_
  intro c _ _ w hk
  exact (Except.ok.inj hk).symm.trans cipherText_length

/-- A file system with room for one byte. -/
def Env.fullDisk : Env :=
  { Env.ideal with
    kernelWrite := fun bs => .ok (min 1 bs.length)
    kernelWrite_le := fun bs n h => by cases h; exact Nat.min_le_right _ _ }

/-- Three bytes on a disk with room for one: "encrypted successfully". -/
theorem not_reportsTruthfully_fullDisk :
    ¬ ReportsTruthfully .encrypt Env.fullDisk (fun _ => some 2) [.p 0, .o 1, .j 3, .k 2]
      (fun p : Nat => if p = 0 then some [10, 20, 30] else if p = 2 then some [7, 9] else none) := by
  intro h
  have hf : FullReads Env.fullDisk := ⟨Env.ideal_fullReads.size, Env.ideal_fullReads.reads⟩
  have hlists : ∀ b, Env.fullDisk.listOk 2 b = true := fun b => by cases b <;> decide
  have hw : WritesOut Env.fullDisk (⟨0, 1, 2, 2⟩ : Call Nat)
      (fun p => if p = 0 then some [10, 20, 30] else if p = 2 then some [7, 9] else none) :=
    ⟨⟨⟨⟨⟨by decide, by decide, by decide, by decide⟩, by decide, by decide, by decide⟩, by decide,
      by decide, by decide⟩, hlists⟩, by decide, fun _ _ => rfl⟩
  exact absurd (stored_of_truthful hf hw rfl (h _ rfl)) (by decide)

end Reports

end UsacSyscalls.Cipher
