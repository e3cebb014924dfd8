import UsacSyscalls.Sys.Limits

/-!
# The memory map of a process

Reference model of `prctl(PR_SET_MM)` of `kernel/sys.c` (`prctl_set_mm`, `prctl_set_mm_map` and what
they call), and of `prctl_get_auxv`: the addresses of the segments, the auxiliary vector and the
executable file of a process.  An address is set alone, with `CAP_SYS_RESOURCE`, or all of them at
once with `PR_SET_MM_MAP`, without it.  What the kernel answers during one call is a parameter.

* `run_cases` — a call fails and changes nothing, or has its effects.
* `runs_checked` — over any run of calls the addresses have passed `validate_prctl_map_addr` in one
  of them, the auxiliary vector ends with `AT_NULL`, and the file is one that may be executed.
-/

set_option autoImplicit false

namespace UsacSyscalls.Sys.MemoryMap

open Limits

def EBADF : Errno := ⟨9, by decide, by decide⟩

/-! ## The calls -/

/-- The addresses of `struct prctl_mm_map`, which are also those of `struct mm_struct`. -/
inductive Field where
  | startCode
  | endCode
  | startData
  | endData
  | startBrk
  | brk
  | startStack
  | argStart
  | argEnd
  | envStart
  | envEnd
  deriving DecidableEq, Repr

abbrev Addrs := Field → UInt64

/-- `struct prctl_mm_map`. -/
structure PrctlMmMap where
  addrs : Addrs
  auxv : UInt64
  auxvSize : UInt32
  exeFd : UInt32

/-- `sizeof(struct prctl_mm_map)`. -/
def sizeofPrctlMmMap : UInt64 := 104

/-- The second argument of `prctl(PR_SET_MM)`. -/
inductive Opt where
  | address (f : Field)
  | auxv
  | exeFile
  | map
  | mapSize
  | other
  deriving DecidableEq, Repr

/-- The kernel's answers during one call. -/
structure Answers (File : Type) where
  /-- `CONFIG_CHECKPOINT_RESTORE`. -/
  checkpointRestore : Bool
  taskSize : UInt64
  mmapMinAddr : UInt64
  /-- `rlimit(RLIMIT_DATA)`. -/
  rlimitData : UInt64
  /-- Whether `check_data_rlimit` refuses. -/
  checkDataRlimit : UInt64 → UInt64 → UInt64 → UInt64 → UInt64 → Bool
  /-- `capable(CAP_SYS_RESOURCE)`. -/
  capable : Bool
  checkpointRestoreNsCapable : Bool
  putUser : Bool
  /-- The `struct prctl_mm_map` that the caller points to. -/
  copyMap : UInt64 → Option PrctlMmMap
  /-- As many bytes of the caller's memory. -/
  copyFromUser : UInt64 → (n : Nat) → Option (Vector UInt8 n)
  fdget : UInt32 → Option File
  isReg : File → Bool
  pathNoexec : File → Bool
  filePermission : File → Option Errno
  replaceMmExeFile : File → Option Errno
  findVma : UInt64 → Bool

/-- What `struct mm_struct` holds of these. -/
structure Mm (File : Type) where
  addrs : Addrs
  savedAuxv : Bytes
  exeFile : File

section Calls

variable {File : Type} (pairs : Nat) (k : Answers File)

/-- `sizeof(mm->saved_auxv)`: so many entries of two words, and one that closes them. -/
def sizeofAuxv : Nat := 16 * (pairs + 1)

def prctlSetMmExeFile (fd : UInt32) (mm : Mm File) : Int × Mm File :=
  match k.fdget fd with
  | none => (EBADF.ret, mm)
  | some exe =>
    if k.isReg exe = false ∨ k.pathNoexec exe = true then (EACCES.ret, mm)
    else
      match k.filePermission exe with
      | some e => (e.ret, mm)
      | none =>
        match k.replaceMmExeFile exe with
        | some e => (e.ret, mm)
        | none => (0, { mm with exeFile := exe })

/-- The static `offsets` of `validate_prctl_map_addr`. -/
def offsets : List Field :=
  [.startCode, .endCode, .startData, .endData, .startBrk, .brk, .startStack, .argStart, .argEnd,
    .envStart, .envEnd]

def validatePrctlMapAddr (m : Addrs) : Option Errno :=
  if ∃ f ∈ offsets, m f ≥ k.taskSize ∨ m f < k.mmapMinAddr then some EINVAL
  else if ¬ (m .startCode < m .endCode ∧ m .startData ≤ m .endData ∧ m .startBrk ≤ m .brk ∧
      m .argStart ≤ m .argEnd ∧ m .envStart ≤ m .envEnd) then some EINVAL
  else if k.checkDataRlimit k.rlimitData (m .brk) (m .startBrk) (m .endData) (m .startData) then
    some EINVAL
  else none

/-- `user_auxv`: zeros, with these bytes at its start, and `AT_NULL` in its last entry. -/
def userAuxv (bytes : Bytes) : Bytes :=
  (overwrite (List.replicate (sizeofAuxv pairs) 0) bytes).take (16 * pairs) ++ List.replicate 16 0

/-- What `prctl_set_mm_map` does about the auxiliary vector before it changes anything. -/
def mapAuxv (map : PrctlMmMap) : Except Errno (Option Bytes) :=
  if map.auxvSize = 0 then .ok none
  else if map.auxv = 0 ∨ map.auxvSize.toNat > sizeofAuxv pairs then .error EINVAL
  else
    match k.copyFromUser map.auxv map.auxvSize.toNat with
    | none => .error EFAULT
    | some bytes => .ok (some (userAuxv pairs bytes.toList))

/-- What it does about the executable file. -/
def mapExeFile (map : PrctlMmMap) (mm : Mm File) : Int × Mm File :=
  if map.exeFd = 4294967295 then (0, mm)
  else if k.checkpointRestoreNsCapable = false then (EPERM.ret, mm)
  else prctlSetMmExeFile k map.exeFd mm

def prctlSetMmMap (opt : Opt) (addr dataSize : UInt64) (mm : Mm File) : Int × Mm File :=
  if opt = .mapSize then (if k.putUser then 0 else EFAULT.ret, mm)
  else if dataSize ≠ sizeofPrctlMmMap then (EINVAL.ret, mm)
  else
    match k.copyMap addr with
    | none => (EFAULT.ret, mm)
    | some map =>
      match validatePrctlMapAddr k map.addrs with
      | some e => (e.ret, mm)
      | none =>
        match mapAuxv pairs k map with
        | .error e => (e.ret, mm)
        | .ok auxv =>
          let (error, mm) := mapExeFile k map mm
          if error ≠ 0 then (error, mm)
          else (0, { mm with addrs := map.addrs, savedAuxv := auxv.getD mm.savedAuxv })

def prctlSetAuxv (addr len : UInt64) (mm : Mm File) : Int × Mm File :=
  if len.toNat > sizeofAuxv pairs then (EINVAL.ret, mm)
  else
    match k.copyFromUser addr len.toNat with
    | none => (EFAULT.ret, mm)
    | some bytes =>
      let auxv := (userAuxv pairs bytes.toList).take len.toNat
      (0, { mm with savedAuxv := overwrite mm.savedAuxv auxv })

/-- Whether the second `switch` of `prctl_set_mm` wants a mapping at the address. -/
def Field.onStack : Field → Bool
  | .startStack | .argStart | .argEnd | .envStart | .envEnd => true
  | _ => false

def prctlSetMm (opt : Opt) (addr arg4 arg5 : UInt64) (mm : Mm File) : Int × Mm File :=
  if arg5 ≠ 0 ∨ (arg4 ≠ 0 ∧ opt ≠ .auxv ∧ opt ≠ .map ∧ opt ≠ .mapSize) then (EINVAL.ret, mm)
  else if k.checkpointRestore = true ∧ (opt = .map ∨ opt = .mapSize) then
    prctlSetMmMap pairs k opt addr arg4 mm
  else if k.capable = false then (EPERM.ret, mm)
  else if opt = .exeFile then prctlSetMmExeFile k addr.toUInt32 mm
  else if opt = .auxv then prctlSetAuxv pairs k addr arg4 mm
  else if addr ≥ k.taskSize ∨ addr < k.mmapMinAddr then (EINVAL.ret, mm)
  else
    match opt with
    | .address f =>
      let m := Function.update mm.addrs f addr
      match validatePrctlMapAddr k m with
      | some e => (e.ret, mm)
      | none =>
        if f.onStack = true ∧ k.findVma addr = false then (EFAULT.ret, mm)
        else (0, { mm with addrs := m })
    | _ => (EINVAL.ret, mm)

/-- `prctl_get_auxv`, into memory that accepts `accepts` bytes. -/
def prctlGetAuxv (accepts : Nat) (len : UInt64) (mm : Mm File) : Reply :=
  let reply := copyToUser accepts (mm.savedAuxv.take (min (sizeofAuxv pairs) len.toNat))
  if reply.ret = 0 then ⟨sizeofAuxv pairs, reply.delivered⟩ else reply

end Calls

/-- The arguments of `prctl(PR_SET_MM)`. -/
structure Call where
  opt : Opt
  addr : UInt64
  arg4 : UInt64
  arg5 : UInt64

section Runs

variable {File : Type} (pairs : Nat)

def Call.run (k : Answers File) (mm : Mm File) (c : Call) : Int × Mm File :=
  prctlSetMm pairs k c.opt c.addr c.arg4 c.arg5 mm

/-- A run of calls, each with the kernel's answers to it. -/
def runs (calls : List (Call × Answers File)) (mm : Mm File) : Mm File :=
  calls.foldl (fun mm (c, k) => (c.run pairs k mm).2) mm

/-! ## What a call can do -/

/-- What `prctl_set_mm_exe_file` asks of a file. -/
structure Answers.Executable (k : Answers File) (exe : File) : Prop where
  isReg : k.isReg exe = true
  exec : k.pathNoexec exe = false
  permission : k.filePermission exe = none

/-- The vector has its size, and its last entry is `AT_NULL`. -/
structure Closed (auxv : Bytes) : Prop where
  length : auxv.length = sizeofAuxv pairs
  last : ∀ b ∈ auxv.drop (16 * pairs), b = 0

/-- The effects of a call that succeeds; a call that fails has none. -/
structure Effect (k : Answers File) (c : Call) (mm mm' : Mm File) : Prop where
  addrs : mm'.addrs = mm.addrs ∨
    validatePrctlMapAddr k mm'.addrs = none ∧ (k.capable = true ∨ c.opt = .map)
  auxv : Closed pairs mm.savedAuxv → Closed pairs mm'.savedAuxv
  exeFile : mm'.exeFile = mm.exeFile ∨
    k.Executable mm'.exeFile ∧ (k.capable = true ∨ k.checkpointRestoreNsCapable = true)

variable {pairs} {k : Answers File} {mm mm' : Mm File}

theorem Effect.refl (k : Answers File) (c : Call) (mm : Mm File) : Effect pairs k c mm mm :=
  ⟨.inl rfl, id, .inl rfl⟩

theorem userAuxv_closed {bytes : Bytes} (h : bytes.length ≤ sizeofAuxv pairs) :
    Closed pairs (userAuxv pairs bytes) := by
  have hzeros : bytes.length ≤ (List.replicate (sizeofAuxv pairs) (0 : UInt8)).length := by
    rwa [List.length_replicate]
  have hfirst : ((overwrite (List.replicate (sizeofAuxv pairs) 0) bytes).take (16 * pairs)).length =
      16 * pairs := by
    rw [List.length_take, overwrite_length hzeros, List.length_replicate, sizeofAuxv]
    omega
  unfold userAuxv
  refine ⟨?_, fun b hb => ?_⟩
  · rw [List.length_append, hfirst, List.length_replicate]
    rfl
  · rw [List.drop_left' hfirst] at hb
    exact List.eq_of_mem_replicate hb

/-- However much of a closed vector is replaced by the start of another one, it is closed. -/
theorem Closed.overwrite_take {auxv auxv' : Bytes} (h : Closed pairs auxv)
    (h' : Closed pairs auxv') (n : Nat) : Closed pairs (overwrite auxv (auxv'.take n)) := by
  have hle : (auxv'.take n).length ≤ auxv.length := by
    rw [List.length_take, h.length, h'.length]
    omega
  refine ⟨(overwrite_length hle).trans h.length, fun b hb => ?_⟩
  unfold overwrite at hb
  rw [List.drop_append, List.mem_append, List.drop_take, List.drop_drop] at hb
  rcases hb with hb | hb
  · exact h'.last b (List.mem_of_mem_take hb)
  · refine h.last b ((List.drop_subset_drop_left auxv ?_) hb)
    omega

/-- Whoever reads a closed vector as a whole gets it closed. -/
theorem Closed.prctlGetAuxv {accepts : Nat} {len : UInt64} (h : Closed pairs mm.savedAuxv)
    (hlen : sizeofAuxv pairs ≤ len.toNat) (hret : 0 ≤ (prctlGetAuxv pairs accepts len mm).ret) :
    (prctlGetAuxv pairs accepts len mm).delivered = mm.savedAuxv := by
  have hall : mm.savedAuxv.take (min (sizeofAuxv pairs) len.toNat) = mm.savedAuxv := by
    rw [Nat.min_eq_left hlen, ← h.length, List.take_length]
  unfold MemoryMap.prctlGetAuxv at hret ⊢
  rw [hall] at hret ⊢
  by_cases hle : mm.savedAuxv.length ≤ accepts
  · rw [copyToUser_all hle]
    rfl
  · have hneg := EFAULT.ret_neg
    rw [copyToUser_fault (Nat.not_le.mp hle)] at hret
    dsimp only at hret
    rw [if_neg (Int.ne_of_lt hneg)] at hret
    exact absurd hret (Int.not_le.mpr hneg)

theorem prctlSetMmExeFile_cases (k : Answers File) (fd : UInt32) (mm : Mm File) :
    (∃ e : Errno, prctlSetMmExeFile k fd mm = (e.ret, mm)) ∨
      ∃ exe, k.Executable exe ∧ prctlSetMmExeFile k fd mm = (0, { mm with exeFile := exe }) := by
  unfold prctlSetMmExeFile
  cases k.fdget fd with
  | none => exact .inl ⟨_, rfl⟩
  | some exe =>
    dsimp only
    split
    · exact .inl ⟨_, rfl⟩
    · rename_i hkind
      simp only [not_or, Bool.not_eq_false, Bool.not_eq_true] at hkind
      cases hperm : k.filePermission exe with
      | some e => exact .inl ⟨e, rfl⟩
      | none =>
        cases k.replaceMmExeFile exe with
        | some e => exact .inl ⟨e, rfl⟩
        | none => exact .inr ⟨exe, ⟨hkind.1, hkind.2, hperm⟩, rfl⟩

theorem mapExeFile_cases (k : Answers File) (map : PrctlMmMap) (mm : Mm File) :
    (∃ e : Errno, mapExeFile k map mm = (e.ret, mm)) ∨
      ∃ exe, (exe = mm.exeFile ∨ k.Executable exe ∧ k.checkpointRestoreNsCapable = true) ∧
        mapExeFile k map mm = (0, { mm with exeFile := exe }) := by
  unfold mapExeFile
  split
  · exact .inr ⟨mm.exeFile, .inl rfl, rfl⟩
  · split
    · exact .inl ⟨_, rfl⟩
    · rename_i hcap
      rcases prctlSetMmExeFile_cases k map.exeFd mm with he | ⟨exe, hexe, heq⟩
      · exact .inl he
      · exact .inr ⟨exe, .inr ⟨hexe, Bool.not_eq_false _ ▸ hcap⟩, heq⟩

theorem mapAuxv_closed {map : PrctlMmMap} {auxv : Option Bytes}
    (h : mapAuxv pairs k map = .ok auxv) : ∀ a ∈ auxv, Closed pairs a := by
  unfold mapAuxv at h
  split at h
  · cases h
    exact fun _ ha => absurd ha (by simp)
  · split at h
    · cases h
    · rename_i hsize
      cases hcopy : k.copyFromUser map.auxv map.auxvSize.toNat with
      | none => simp only [hcopy, reduceCtorEq] at h
      | some bytes =>
        simp only [hcopy, Except.ok.injEq] at h
        rintro a rfl
        rw [Option.some.injEq] at h
        rw [← h]
        refine userAuxv_closed ?_
        rw [Vector.length_toList]
        omega

/-- A call fails and changes nothing, or has its effects. -/
theorem run_cases (k : Answers File) (mm : Mm File) (c : Call) :
    (∃ e : Errno, c.run pairs k mm = (e.ret, mm)) ∨
      ∃ mm', c.run pairs k mm = (0, mm') ∧ Effect pairs k c mm mm' := by
  obtain ⟨opt, addr, arg4, arg5⟩ := c
  unfold Call.run prctlSetMm
  dsimp only
  split
  · exact .inl ⟨_, rfl⟩
  split
  · rename_i hmap
    have hopt := hmap.2
    unfold prctlSetMmMap
    split
    · cases k.putUser with
      | true => exact .inr ⟨mm, rfl, .refl ..⟩
      | false => exact .inl ⟨_, rfl⟩
    rename_i hsize
    have hopt : opt = .map := hopt.resolve_right hsize
    split
    · exact .inl ⟨_, rfl⟩
    cases k.copyMap addr with
    | none => exact .inl ⟨_, rfl⟩
    | some map =>
      dsimp only
      cases hval : validatePrctlMapAddr k map.addrs with
      | some e => exact .inl ⟨e, rfl⟩
      | none =>
        dsimp only
        cases hauxv : mapAuxv pairs k map with
        | error e => exact .inl ⟨e, rfl⟩
        | ok auxv =>
          have hclosed := mapAuxv_closed hauxv
          rcases mapExeFile_cases k map mm with ⟨e, he⟩ | ⟨exe, hexe, he⟩
          · rw [he]
            exact .inl ⟨e, if_pos (Int.ne_of_lt e.ret_neg)⟩
          · rw [he]
            refine .inr ⟨_, rfl, .inr ⟨hval, .inr hopt⟩, fun hmm => ?_, ?_⟩
            · cases auxv with
              | none => exact hmm
              | some a => exact hclosed a rfl
            · exact hexe.imp_right fun h => ⟨h.1, .inr h.2⟩
  split
  · exact .inl ⟨_, rfl⟩
  rename_i hcap
  have hcap : k.capable = true := Bool.not_eq_false _ ▸ hcap
  split
  · rcases prctlSetMmExeFile_cases k addr.toUInt32 mm with he | ⟨exe, hexe, he⟩
    · exact .inl he
    · exact .inr ⟨_, he, .inl rfl, id, .inr ⟨hexe, .inl hcap⟩⟩
  split
  · unfold prctlSetAuxv
    split
    · exact .inl ⟨_, rfl⟩
    rename_i hlen
    cases k.copyFromUser addr arg4.toNat with
    | none => exact .inl ⟨_, rfl⟩
    | some bytes =>
      refine .inr ⟨_, rfl, .inl rfl, fun hmm => hmm.overwrite_take (userAuxv_closed ?_) _, .inl rfl⟩
      rw [Vector.length_toList]
      omega
  split
  · exact .inl ⟨_, rfl⟩
  cases opt with
  | address f =>
    dsimp only
    cases hval : validatePrctlMapAddr k (Function.update mm.addrs f addr) with
    | some e => exact .inl ⟨e, rfl⟩
    | none =>
      dsimp only
      split
      · exact .inl ⟨_, rfl⟩
      · exact .inr ⟨_, rfl, .inr ⟨hval, .inl hcap⟩, id, .inl rfl⟩
  | _ => exact .inl ⟨_, rfl⟩

theorem run_effect (pairs : Nat) (k : Answers File) (mm : Mm File) (c : Call) :
    Effect pairs k c mm (c.run pairs k mm).2 := by
  rcases run_cases k mm c with ⟨e, he⟩ | ⟨mm', he, heff⟩
  · rw [he]
    exact .refl ..
  · rw [he]
    exact heff

/-! ## Whole runs -/

/-- The addresses have passed `validate_prctl_map_addr` in a call that may set them. -/
def Checked (call : Call × Answers File) (addrs : Addrs) : Prop :=
  validatePrctlMapAddr call.2 addrs = none ∧ (call.2.capable = true ∨ call.1.opt = .map)

/-- **Over any run of calls**, failing ones included: the addresses are those of the start or have
    passed every check of `validate_prctl_map_addr` in one of the calls, all together; the auxiliary
    vector keeps its size and ends with `AT_NULL`, also for a program that reads it; and the
    executable file is that of the start or one that a call has found to be a regular file that may
    be executed.  Whether `find_vma` finds a mapping is not among these checks. -/
theorem runs_checked (calls : List (Call × Answers File)) {mm : Mm File}
    (hauxv : Closed pairs mm.savedAuxv) :
    let mm' := runs pairs calls mm
    (mm'.addrs = mm.addrs ∨ ∃ call ∈ calls, Checked call mm'.addrs) ∧
      Closed pairs mm'.savedAuxv ∧
      (∀ accepts len, sizeofAuxv pairs ≤ len.toNat →
        0 ≤ (prctlGetAuxv pairs accepts len mm').ret →
          Closed pairs (prctlGetAuxv pairs accepts len mm').delivered) ∧
      (mm'.exeFile = mm.exeFile ∨ ∃ call ∈ calls, call.2.Executable mm'.exeFile ∧
        (call.2.capable = true ∨ call.2.checkpointRestoreNsCapable = true)) := by
  have hread : ∀ {t : Mm File}, Closed pairs t.savedAuxv → ∀ accepts len,
      sizeofAuxv pairs ≤ len.toNat → 0 ≤ (prctlGetAuxv pairs accepts len t).ret →
        Closed pairs (prctlGetAuxv pairs accepts len t).delivered := by
    intro t ht accepts len hlen hret
    rw [ht.prctlGetAuxv hlen hret]
    exact ht
  induction calls generalizing mm with
  | nil => exact ⟨.inl rfl, hauxv, hread hauxv, .inl rfl⟩
  | cons call calls ih =>
    have heff := run_effect pairs call.2 mm call.1
    obtain ⟨haddrs, hclosed, -, hexe⟩ := ih (heff.auxv hauxv)
    have htail : runs pairs (call :: calls) mm = runs pairs calls (call.1.run pairs call.2 mm).2 :=
      rfl
    rw [htail]
    refine ⟨?_, hclosed, hread hclosed, ?_⟩
    · rcases haddrs with hsame | ⟨call', hmem, hcheck⟩
      · rw [hsame]
        exact heff.addrs.imp_right fun h => ⟨call, List.mem_cons_self, h⟩
      · exact .inr ⟨call', List.mem_cons_of_mem call hmem, hcheck⟩
    · rcases hexe with hsame | ⟨call', hmem, hcheck⟩
      · rw [hsame]
        exact heff.exeFile.imp_right fun h => ⟨call, List.mem_cons_self, h⟩
      · exact .inr ⟨call', List.mem_cons_of_mem call hmem, hcheck⟩

/-- A kernel that grants everything but data above the limit; the caller's memory holds this map
    and, where it is read as bytes, sevens. -/
def Answers.granting (rlimitData : UInt64) (map : PrctlMmMap) : Answers Unit where
  checkpointRestore := true
  taskSize := 140737488351232
  mmapMinAddr := 65536
  rlimitData := rlimitData
  checkDataRlimit rlim new start endData startData :=
    decide (rlim < RLIM_INFINITY) && decide (new - start + (endData - startData) > rlim)
  capable := true
  checkpointRestoreNsCapable := true
  putUser := true
  copyMap _ := some map
  copyFromUser _ n := some (Vector.replicate n 7)
  fdget _ := some ()
  isReg _ := true
  pathNoexec _ := false
  filePermission _ := none
  replaceMmExeFile _ := none
  findVma _ := true

/-- A small map with the heap and the data at this place. -/
def smallMap (a : UInt64) : PrctlMmMap where
  addrs
    | .endCode => 69632
    | .startData | .endData | .startBrk | .brk => a
    | _ => 65536
  auxv := 65536
  auxvSize := 32
  exeFd := 3

/-- A restored process that then replaces a part of its auxiliary vector. -/
theorem runs_checked_restored :
    let mm' := runs 1 [(⟨.map, 0, 104, 0⟩, .granting 1 (smallMap 73728)),
      (⟨.auxv, 65536, 24, 0⟩, .granting 1 (smallMap 0))] ⟨fun _ => 0, List.replicate 32 0, ()⟩
    (mm'.addrs = (fun _ => 0) ∨ ∃ call ∈ [((⟨.map, 0, 104, 0⟩ : Call),
        Answers.granting 1 (smallMap 73728)), (⟨.auxv, 65536, 24, 0⟩, .granting 1 (smallMap 0))],
          Checked call mm'.addrs) ∧ mm'.savedAuxv = List.replicate 16 7 ++ List.replicate 16 0 := by
  have hclosed : Closed 1 (List.replicate 32 0) :=
    ⟨rfl, fun _ hb => List.eq_of_mem_replicate (List.mem_of_mem_drop hb)⟩
  exact ⟨(runs_checked _ hclosed).1, rfl⟩

end Runs

end UsacSyscalls.Sys.MemoryMap
