import UsacSyscalls.Cipher.Runs

/-!
# What a cipher call takes and gives back

The cleanup labels give back everything below them, in the order of `cleanupOrder`.  `trailFrom`
is the trail that the main thread still has ahead of it at a program counter, from the kernel's
answers alone; `reach_trail` says that what lies behind it and what lies ahead always make up
`callTrail`, so every complete call leaves exactly that trail.

`balanced_iff` — the calls whose trail is balanced.  The source takes the paths, the files and the
lists in groups of three and checks each group afterwards, while the labels assume that a jump
gives back what was taken before it; the calls that fail inside a group are the unbalanced ones.
-/

set_option autoImplicit false

namespace UsacSyscalls.Cipher

open Lib.Run Lib.Ledger

/-- Everything the cleanup labels give back, from `free_thread_list` down. -/
def cleanupOrder : List Resource :=
  [.block .threadList, .block .taskList, .block .fragmentList, .block .fileBuffer,
    .block .encryptionKey, .file .key, .file .output, .file .input, .path .input, .path .output,
    .path .key]

/-- The trail of the labels after the first `k` releases. -/
def cleanup (k : Nat) : List (Op Resource) := (cleanupOrder.drop k).map .release

theorem append_ite_pos {α : Type} {p : Prop} [Decidable p] (hp : p) (u v y z : List α) :
    u ++ v ++ y = u ++ (v ++ if p then y else z) := by
  rw [if_pos hp, List.append_assoc]

theorem append_ite_neg {α : Type} {p : Prop} [Decidable p] (hp : ¬ p) (u v y z : List α) :
    u ++ v ++ z = u ++ (v ++ if p then y else z) := by
  rw [if_neg hp, List.append_assoc]

section Trail

variable {Path : Type} [DecidableEq Path] (env : Env) (c : Call Path) (fs₀ : FS Path)

/-! ## The trail of a call, statement by statement -/

def splitTrail : List (Op Resource) := if toSizeT c.threadCount.toInt = 0 then [] else cleanup 0

def allocListsTrail : List (Op Resource) :=
  let ok := env.listOk c.threadCount
  attempt (ok .threadList) (.block .threadList) ++ attempt (ok .taskList) (.block .taskList) ++
      attempt (ok .fragmentList) (.block .fragmentList) ++
    if ok .threadList && ok .taskList && ok .fragmentList then splitTrail c else cleanup 3

def readInputTrail : List (Op Resource) :=
  if toInt (readCount (dataRead₀ env c fs₀)) < 0 then cleanup 3 else allocListsTrail env c

def allocDataTrail : List (Op Resource) :=
  if env.kmalloc .fileBuffer (fileSize₀ env c fs₀) then
    .acquire (.block .fileBuffer) :: readInputTrail env c fs₀
  else cleanup 4

def sizeInputTrail : List (Op Resource) :=
  if fileSize₀ env c fs₀ = 0 then cleanup 4 else allocDataTrail env c fs₀

def readKeyTrail : List (Op Resource) :=
  if toInt (readCount (keyRead₀ env c fs₀)) < 0 then cleanup 4 else sizeInputTrail env c fs₀

def allocKeyTrail : List (Op Resource) :=
  if env.kmalloc .encryptionKey (keyLength₀ env c fs₀) then
    .acquire (.block .encryptionKey) :: readKeyTrail env c fs₀
  else cleanup 5

def sizeKeyTrail : List (Op Resource) :=
  if keyLength₀ env c fs₀ = 0 then cleanup 5 else allocKeyTrail env c fs₀

def checkFilesTrail : List (Op Resource) :=
  match env.openRead fs₀ .input c.input, env.filpOpen .output,
    env.openRead (afterOpen env c fs₀) .key c.key with
  | some _, _, _ => cleanup 8
  | none, some _, _ => cleanup 7
  | none, none, some _ => cleanup 6
  | none, none, none => sizeKeyTrail env c fs₀

def openKeyTrail : List (Op Resource) :=
  attempt (env.openRead (afterOpen env c fs₀) .key c.key).isNone (.file .key) ++
    checkFilesTrail env c fs₀

def openOutputTrail : List (Op Resource) :=
  attempt (env.filpOpen .output).isNone (.file .output) ++ openKeyTrail env c fs₀

def openInputTrail : List (Op Resource) :=
  attempt (env.openRead fs₀ .input c.input).isNone (.file .input) ++ openOutputTrail env c fs₀

/-- The trail of a whole call. -/
def callTrail : List (Op Resource) :=
  let ok (f : Operand) := (env.strndupUser f).isNone
  attempt (ok .input) (.path .input) ++ attempt (ok .output) (.path .output) ++
      attempt (ok .key) (.path .key) ++
    if ok .input && ok .output && ok .key then openInputTrail env c fs₀ else cleanup 8

/-- The trail the main thread has ahead of it. -/
def trailFrom : Pc → List (Op Resource)
  | .copyPaths => callTrail env c fs₀
  | .openInput => openInputTrail env c fs₀
  | .openOutput => openOutputTrail env c fs₀
  | .openKey => openKeyTrail env c fs₀
  | .checkFiles => checkFilesTrail env c fs₀
  | .sizeKey => sizeKeyTrail env c fs₀
  | .allocKey => allocKeyTrail env c fs₀
  | .readKey => readKeyTrail env c fs₀
  | .sizeInput => sizeInputTrail env c fs₀
  | .allocData => allocDataTrail env c fs₀
  | .readInput => readInputTrail env c fs₀
  | .allocLists => allocListsTrail env c
  | .split => splitTrail c
  | .spawn _ => cleanup 0
  | .await _ => cleanup 0
  | .write => cleanup 0
  | .freeThreadList => cleanup 0
  | .freeTaskList => cleanup 1
  | .freeFragmentList => cleanup 2
  | .freeFileBuffer => cleanup 3
  | .freeEncryptionKey => cleanup 4
  | .closeKeyFile => cleanup 5
  | .closeOutputFile => cleanup 6
  | .closeInputFile => cleanup 7
  | .exit => cleanup 8
  | .freeMemory => cleanup 8
  | .done => []
  | .fault => []

variable {env c fs₀}

/-- Every statement of the main thread moves its part of the trail from ahead to behind. -/
theorem mainStep_trail {t : Texts} {s s' : State Path} (h : Inv env c fs₀ s)
    (hs : mainStep t env c s = some s') :
    s'.trail ++ trailFrom env c fs₀ s'.pc = s.trail ++ trailFrom env c fs₀ s.pc := by
  unfold mainStep at hs
  unfold Inv at h
  cases hpc : s.pc <;> simp only [hpc, Option.some.injEq, reduceCtorEq] at h hs
  case await i =>
    unfold await at hs
    split at hs
    · split at hs
      · split at hs
        · cases hs; rfl
        · cases hs
      · cases hs
    · cases hs; rfl
  all_goals subst hs
  case copyPaths =>
    unfold copyPaths
    simp only
    split
    · rename_i hok
      exact append_ite_pos hok s.trail _ _ _
    · rename_i hok
      exact append_ite_neg hok s.trail _ _ _
  case openInput => rw [← h.2.1]; exact List.append_assoc ..
  case openOutput => exact List.append_assoc ..
  case openKey =>
    rw [show openKey env c s = { s with
        pc := .checkFiles
        keyFile := env.openRead (afterOpen env c fs₀) .key c.key
        trail := s.trail ++
          attempt (env.openRead (afterOpen env c fs₀) .key c.key).isNone (.file .key) } by
      rw [← h.2.1]; rfl]
    exact List.append_assoc ..
  case checkFiles =>
    obtain ⟨-, -, -, hi, ho, hk⟩ := h
    unfold checkFiles
    simp only [trailFrom, checkFilesTrail, ← hi, ← ho, ← hk]
    cases s.inputFile <;> cases s.outputFile <;> cases s.keyFile <;> rfl
  case sizeKey =>
    unfold sizeKey
    simp only [h.2.1]
    split
    · rename_i h0; exact congrArg (s.trail ++ ·) (if_pos h0).symm
    · rename_i h0; exact congrArg (s.trail ++ ·) (if_neg h0).symm
  case allocKey =>
    unfold allocKey
    simp only [h.2.2.2.1]
    split
    · rename_i hk
      exact (List.append_assoc ..).trans (congrArg (s.trail ++ ·) (if_pos hk).symm)
    · rename_i hk; exact congrArg (s.trail ++ ·) (if_neg hk).symm
  case readKey =>
    unfold readKey
    simp only [h.2.1, h.2.2.2.1]
    split
    · rename_i hr; exact congrArg (s.trail ++ ·) (if_pos hr).symm
    · rename_i hr; exact congrArg (s.trail ++ ·) (if_neg hr).symm
  case sizeInput =>
    unfold sizeInput
    simp only [h.1.fs]
    split
    · rename_i h0; exact congrArg (s.trail ++ ·) (if_pos h0).symm
    · rename_i h0; exact congrArg (s.trail ++ ·) (if_neg h0).symm
  case allocData =>
    unfold allocData
    simp only [h.2.2.1]
    split
    · rename_i hk
      exact (List.append_assoc ..).trans (congrArg (s.trail ++ ·) (if_pos hk).symm)
    · rename_i hk; exact congrArg (s.trail ++ ·) (if_neg hk).symm
  case readInput =>
    unfold readInput
    simp only [h.1.fs, h.2.2.1]
    split
    · rename_i hr; exact congrArg (s.trail ++ ·) (if_pos hr).symm
    · rename_i hr; exact congrArg (s.trail ++ ·) (if_neg hr).symm
  case allocLists =>
    unfold allocLists
    simp only
    split
    · rename_i hok
      exact append_ite_pos hok s.trail _ _ _
    · rename_i hok
      exact append_ite_neg hok s.trail _ _ _
  case split =>
    unfold split
    simp only
    split
    · rename_i h0; exact congrArg (s.trail ++ ·) (if_pos h0).symm
    · rename_i h0; exact congrArg (s.trail ++ ·) (if_neg h0).symm
  case spawn i =>
    unfold spawn
    split
    · split <;> rfl
    · rfl
  case write =>
    unfold write
    simp only
    split <;> rfl
  all_goals simp only [giveBack, List.append_assoc]; rfl

theorem step_trail {op : Mode} {a : Actor} {s s' : State Path} (h : Inv env c fs₀ s)
    (hs : step op env c a s = some s') :
    s'.trail ++ trailFrom env c fs₀ s'.pc = s.trail ++ trailFrom env c fs₀ s.pc := by
  cases a with
  | main => exact mainStep_trail h hs
  | worker k =>
    obtain ⟨w, _, _, ⟨_, rfl⟩ | ⟨_, rfl⟩⟩ := workerStep_cases hs <;> rfl

/-- **What lies behind and what lies ahead make up the trail of the call**, whatever the
    interleaving. -/
theorem reach_trail {op : Mode} {s : State Path}
    (h : Reach (step op env c) (State.init fs₀) s) :
    s.trail ++ trailFrom env c fs₀ s.pc = callTrail env c fs₀ := by
  have := h.invariant (I := fun s => Inv env c fs₀ s ∧
      s.trail ++ trailFrom env c fs₀ s.pc = callTrail env c fs₀) ⟨init_inv env c fs₀, rfl⟩
    fun _ _ _ ⟨hi, ht⟩ hs => ⟨step_inv hi hs, (step_trail hi hs).trans ht⟩
  exact this.2

/-- Every run of a call ends with the trail of the call. -/
theorem call_trail (op : Mode) (env : Env) (c : Call Path) (fs₀ : FS Path) :
    Ensures (step op env c) (fun s => s.trail = callTrail env c fs₀) (State.init fs₀) := by
  refine (call_ensures op env c fs₀).mono fun s ⟨hr, hend⟩ => ?_
  have ht := reach_trail hr
  rcases hend with ⟨hpc, _⟩ | ⟨hpc, _⟩ <;>
    simpa only [hpc, trailFrom, List.append_nil] using ht

/-! ## Which trails are balanced -/

variable (env c fs₀)

/-- No group of three is taken in part: the paths are all copied, a file that cannot be opened is
    followed by none that can, and the lists are all allocated, for at least one thread, or none
    of them is. -/
structure WholeGroups : Prop where
  paths : Copied env
  inputFile : env.openRead fs₀ .input c.input ≠ none →
    env.filpOpen .output ≠ none ∧ env.openRead (afterOpen env c fs₀) .key c.key ≠ none
  outputFile : env.filpOpen .output ≠ none →
    env.openRead (afterOpen env c fs₀) .key c.key ≠ none
  lists : Loaded env c fs₀ →
    ((∀ b, env.listOk c.threadCount b = true) ∧ c.threadCount.toInt ≠ 0) ∨
      (env.listOk c.threadCount .threadList = false ∧ env.listOk c.threadCount .taskList = false ∧
        env.listOk c.threadCount .fragmentList = false)

variable {env c fs₀}

/-- The trail of a call that holds the paths and the files. -/
def heldFiles : List (Op Resource) :=
  [.acquire (.path .input), .acquire (.path .output), .acquire (.path .key),
    .acquire (.file .input), .acquire (.file .output), .acquire (.file .key)]

theorem toSizeT_eq_zero {n : Int32} : toSizeT n.toInt = 0 ↔ n.toInt = 0 := by
  have hlo := n.le_toInt
  have hhi := n.toInt_lt
  unfold toSizeT
  omega

theorem callTrail_of_opened (h : Opened env c fs₀) :
    callTrail env c fs₀ = heldFiles ++ sizeKeyTrail env c fs₀ := by
  simp only [callTrail, openInputTrail, openOutputTrail, openKeyTrail, checkFilesTrail, heldFiles,
    h.copied _, h.input, h.output, h.key, Option.isNone_none, attempt_true, Bool.and_self, if_true,
    List.cons_append, List.nil_append]

theorem sizeKeyTrail_of_loaded (h : Loaded env c fs₀) :
    sizeKeyTrail env c fs₀ =
      [.acquire (.block .encryptionKey), .acquire (.block .fileBuffer)] ++ allocListsTrail env c := by
  have hk := h.keyRead
  have hd := h.dataRead
  simp only [sizeKeyTrail, allocKeyTrail, readKeyTrail, sizeInputTrail, allocDataTrail,
    readInputTrail, h.keySize, h.keyMemory, h.dataSize, h.dataMemory, if_true, if_false]
  rw [if_neg (by omega), if_neg (by omega)]
  rfl

/-- A call that opens its files and fails before the lists gives everything back. -/
theorem balanced_of_not_loaded (ho : Opened env c fs₀) (h : ¬ Loaded env c fs₀) :
    Balanced (callTrail env c fs₀) := by
  rw [callTrail_of_opened ho, sizeKeyTrail]
  by_cases hks : keyLength₀ env c fs₀ = 0
  · rw [if_pos hks]; decide
  by_cases hkm : env.kmalloc .encryptionKey (keyLength₀ env c fs₀) = true
  swap
  · rw [if_neg hks, allocKeyTrail, if_neg hkm]; decide
  by_cases hkr : toInt (readCount (keyRead₀ env c fs₀)) < 0
  · rw [if_neg hks, allocKeyTrail, if_pos hkm, readKeyTrail, if_pos hkr]; decide
  by_cases hds : fileSize₀ env c fs₀ = 0
  · rw [if_neg hks, allocKeyTrail, if_pos hkm, readKeyTrail, if_neg hkr, sizeInputTrail,
      if_pos hds]
    decide
  by_cases hdm : env.kmalloc .fileBuffer (fileSize₀ env c fs₀) = true
  swap
  · rw [if_neg hks, allocKeyTrail, if_pos hkm, readKeyTrail, if_neg hkr, sizeInputTrail,
      if_neg hds, allocDataTrail, if_neg hdm]
    decide
  by_cases hdr : toInt (readCount (dataRead₀ env c fs₀)) < 0
  · rw [if_neg hks, allocKeyTrail, if_pos hkm, readKeyTrail, if_neg hkr, sizeInputTrail,
      if_neg hds, allocDataTrail, if_pos hdm, readInputTrail, if_pos hdr]
    decide
  · exact absurd ⟨⟨ho, hks, hkm, by omega⟩, hds, hdm, by omega⟩ h

/-- Of three lists taken in part, the labels give back none. -/
theorem balanced_lists : ∀ t k f zero : Bool,
    Balanced (heldFiles ++ ([.acquire (.block .encryptionKey), .acquire (.block .fileBuffer)] ++
      (attempt t (.block .threadList) ++ attempt k (.block .taskList) ++
        attempt f (.block .fragmentList) ++
          if t && k && f then (if zero then [] else cleanup 0) else cleanup 3))) ↔
      (t && k && f) = true ∧ zero = false ∨ t = false ∧ k = false ∧ f = false := by
  decide

theorem balanced_of_loaded (h : Loaded env c fs₀) :
    Balanced (callTrail env c fs₀) ↔
      ((∀ b, env.listOk c.threadCount b = true) ∧ c.threadCount.toInt ≠ 0) ∨
        (env.listOk c.threadCount .threadList = false ∧
          env.listOk c.threadCount .taskList = false ∧
          env.listOk c.threadCount .fragmentList = false) := by
  have hall : (∀ b, env.listOk c.threadCount b = true) ↔
      (env.listOk c.threadCount .threadList && env.listOk c.threadCount .taskList &&
        env.listOk c.threadCount .fragmentList) = true := by
    simp only [Bool.and_eq_true, and_assoc]
    exact ⟨fun h => ⟨h _, h _, h _⟩, fun h b => by cases b; exacts [rfl, rfl, h.1, h.2.1, h.2.2]⟩
  have hzero : decide (toSizeT c.threadCount.toInt = 0) = false ↔ c.threadCount.toInt ≠ 0 := by
    rw [decide_eq_false_iff_not, toSizeT_eq_zero]
  have hsplit : splitTrail c =
      if decide (toSizeT c.threadCount.toInt = 0) then [] else cleanup 0 := by
    simp only [splitTrail, decide_eq_true_eq]
  rw [callTrail_of_opened h.toOpened, sizeKeyTrail_of_loaded h, allocListsTrail, hsplit, hall,
    ← hzero]
  exact balanced_lists _ _ _ _

/-- Of three paths copied in part, `free_memory` frees also the error pointers. -/
theorem not_balanced_paths : ∀ i o k : Bool, (i && o && k) = false →
    ¬ Balanced (attempt i (.path .input) ++ attempt o (.path .output) ++ attempt k (.path .key) ++
      cleanup 8) := by
  decide

/-- Of three files opened in part, the label jumped to closes those before the first that could
    not be opened, and leaves those after it open. -/
theorem balanced_files : ∀ i o k : Bool, (i && o && k) = false →
    (Balanced ([.acquire (.path .input), .acquire (.path .output), .acquire (.path .key)] ++
        (attempt i (.file .input) ++ (attempt o (.file .output) ++ (attempt k (.file .key) ++
          if !i then cleanup 8 else if !o then cleanup 7 else cleanup 6)))) ↔
      (i = false → o = false ∧ k = false) ∧ (o = false → k = false)) := by
  decide

theorem callTrail_of_not_copied (h : ¬ Copied env) : ¬ Balanced (callTrail env c fs₀) := by
  have hok : ((env.strndupUser .input).isNone && (env.strndupUser .output).isNone &&
      (env.strndupUser .key).isNone) = false := by
    rw [Bool.eq_false_iff]
    intro hall
    simp only [Bool.and_eq_true, Option.isNone_iff_eq_none, and_assoc] at hall
    exact h fun f => by cases f; exacts [hall.1, hall.2.1, hall.2.2]
  simp only [callTrail, hok, Bool.false_eq_true, if_false]
  exact not_balanced_paths _ _ _ hok

/-- With the paths copied and some file not opened. -/
theorem balanced_of_not_opened (hc : Copied env) (h : ¬ Opened env c fs₀) :
    Balanced (callTrail env c fs₀) ↔
      (env.openRead fs₀ .input c.input ≠ none →
        env.filpOpen .output ≠ none ∧ env.openRead (afterOpen env c fs₀) .key c.key ≠ none) ∧
      (env.filpOpen .output ≠ none → env.openRead (afterOpen env c fs₀) .key c.key ≠ none) := by
  have hnone : ∀ x : Option Errno, x.isNone = false ↔ x ≠ none := by
    intro x; cases x <;> simp
  have hok : ((env.openRead fs₀ .input c.input).isNone && (env.filpOpen .output).isNone &&
      (env.openRead (afterOpen env c fs₀) .key c.key).isNone) = false := by
    rw [Bool.eq_false_iff]
    intro hall
    simp only [Bool.and_eq_true, Option.isNone_iff_eq_none, and_assoc] at hall
    exact h ⟨hc, hall.1, hall.2.1, hall.2.2⟩
  have hcheck : checkFilesTrail env c fs₀ =
      if !(env.openRead fs₀ .input c.input).isNone then cleanup 8
      else if !(env.filpOpen .output).isNone then cleanup 7 else cleanup 6 := by
    unfold checkFilesTrail
    revert hok
    cases env.openRead fs₀ .input c.input <;> cases env.filpOpen .output <;>
      cases env.openRead (afterOpen env c fs₀) .key c.key <;> intro hok <;> first | rfl | cases hok
  have htrail : callTrail env c fs₀ =
      [.acquire (.path .input), .acquire (.path .output), .acquire (.path .key)] ++
        (attempt (env.openRead fs₀ .input c.input).isNone (.file .input) ++
          (attempt (env.filpOpen .output).isNone (.file .output) ++
            (attempt (env.openRead (afterOpen env c fs₀) .key c.key).isNone (.file .key) ++
              checkFilesTrail env c fs₀))) := by
    simp only [callTrail, hc _, Option.isNone_none, attempt_true, Bool.and_self, if_true]
    rfl
  rw [htrail, hcheck, balanced_files _ _ _ hok]
  simp only [hnone]

/-- **The calls that give back exactly what they took.** -/
theorem balanced_callTrail : Balanced (callTrail env c fs₀) ↔ WholeGroups env c fs₀ := by
  by_cases hc : Copied env
  swap
  · exact iff_of_false (callTrail_of_not_copied hc) fun h => hc h.paths
  by_cases ho : Opened env c fs₀
  swap
  · rw [balanced_of_not_opened hc ho]
    exact ⟨fun h => ⟨hc, h.1, h.2, fun hl => absurd hl.toOpened ho⟩,
      fun h => ⟨h.inputFile, h.outputFile⟩⟩
  by_cases hl : Loaded env c fs₀
  · rw [balanced_of_loaded hl]
    exact ⟨fun h => ⟨hc, fun hi => absurd ho.input hi, fun hout => absurd ho.output hout,
      fun _ => h⟩, fun h => h.lists hl⟩
  · exact iff_of_true (balanced_of_not_loaded ho hl)
      ⟨hc, fun hi => absurd ho.input hi, fun hout => absurd ho.output hout, fun h => absurd h hl⟩

/-- **Resource balance**: every run of a call ends with everything given back exactly once, and
    nothing else ever released, iff no group of three is taken in part. -/
theorem balanced_iff (op : Mode) (env : Env) (c : Call Path) (fs₀ : FS Path) :
    Ensures (step op env c) (fun s => Balanced s.trail) (State.init fs₀) ↔
      WholeGroups env c fs₀ := by
  rw [← balanced_callTrail]
  exact Ensures.iff_of_outcome ((call_trail op env c fs₀).mono fun s hs => by rw [hs])

/-- A missing input file leaves the output file open. -/
theorem not_balanced_missing_input :
    ¬ Ensures (step .encrypt Env.ideal (⟨0, 1, 2, 2⟩ : Call Nat)) (fun s => Balanced s.trail)
      (State.init fun p => if p = 2 then some [7, 9] else none) := by
  intro h
  obtain ⟨s, hr, ht, -⟩ := (call_ensures .encrypt Env.ideal (⟨0, 1, 2, 2⟩ : Call Nat)
    (fun p => if p = 2 then some [7, 9] else none)).exists_final
  have hs := h.post s hr ht
  have htrail := (call_trail .encrypt Env.ideal (⟨0, 1, 2, 2⟩ : Call Nat) _).post s hr ht
  rw [htrail] at hs
  revert hs
  decide

end Trail

end UsacSyscalls.Cipher
