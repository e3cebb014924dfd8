import Mathlib.Logic.Function.Basic
import UsacSyscalls.Sys.Credentials

/-!
# Resource limits

Reference model of `do_prlimit` and of the system calls of `kernel/sys.c` on top of it, also those
for programs of 32 bits, whose limits have 32 bits.  A thread group shares its limits; the ids that
`prlimit64` compares belong to a thread.

* `doPrlimit_cases` — a call fails, reads a limit, or sets one that it may set.
* `compat_setget` — a program of 32 bits reads what it has set.
* `compat_getset_iff` — exactly when it can set what it has read without changing the limit.
-/

set_option autoImplicit false

namespace UsacSyscalls.Sys.Limits

/-! ## The limits of a thread group -/

/-- `struct rlimit`, also `struct rlimit64`. -/
structure Rlimit where
  cur : UInt64
  max : UInt64
  deriving DecidableEq, Repr

/-- `struct compat_rlimit`. -/
structure CompatRlimit where
  cur : UInt32
  max : UInt32
  deriving DecidableEq, Repr

/-- `RLIM_INFINITY`, also `RLIM64_INFINITY`. -/
def RLIM_INFINITY : UInt64 := 18446744073709551615
def COMPAT_RLIM_INFINITY : UInt32 := 4294967295
abbrev RLIM_NLIMITS : Nat := 16

abbrev Resource := Fin RLIM_NLIMITS

def RLIMIT_NOFILE : Resource := ⟨7, by decide⟩

abbrev Rlims := Resource → Rlimit

/-- The kernel's answers during one call. -/
structure Answers where
  copyFromUser : Bool
  copyToUser : Bool
  sysctlNrOpen : UInt32
  /-- `capable(CAP_SYS_RESOURCE)`. -/
  capable : Bool
  /-- `ns_capable` for `CAP_SYS_RESOURCE` in the user namespace of the target. -/
  nsCapable : Bool
  securityTaskSetrlimit : Option Errno
  securityTaskPrlimit : Option Errno

section DoPrlimit

variable (a : Answers) (rlims : Rlims)

/-- `do_prlimit`: the limit before the call, and the limits after it. -/
def doPrlimit (resource : UInt32) (newRlim : Option Rlimit) : Except Errno (Rlimit × Rlims) :=
  if h : resource.toNat < RLIM_NLIMITS then
    let r : Resource := ⟨resource.toNat, h⟩
    match newRlim with
    | none => .ok (rlims r, rlims)
    | some new =>
      if new.cur > new.max then .error EINVAL
      else if r = RLIMIT_NOFILE ∧ new.max > a.sysctlNrOpen.toUInt64 then .error EPERM
      else if new.max > (rlims r).max ∧ a.capable = false then .error EPERM
      else
        match a.securityTaskSetrlimit with
        | some e => .error e
        | none => .ok (rlims r, Function.update rlims r new)
  else .error EINVAL

/-- What `setrlimit` and its variant for 32 bits share. -/
def setTo (resource : UInt32) (new : Rlimit) : Int × Rlims :=
  if a.copyFromUser = false then (EFAULT.ret, rlims)
  else
    match doPrlimit a rlims resource (some new) with
    | .error e => (e.ret, rlims)
    | .ok (_, rlims') => (0, rlims')

def setrlimit := setTo

def getrlimit (resource : UInt32) : Except Errno Rlimit :=
  match doPrlimit a rlims resource none with
  | .error e => .error e
  | .ok (value, _) => if a.copyToUser then .ok value else .error EFAULT

/-- A limit of a program of 32 bits, for the kernel. -/
def widen (x : UInt32) : UInt64 := if x = COMPAT_RLIM_INFINITY then RLIM_INFINITY else x.toUInt64

/-- A limit of the kernel, for a program of 32 bits. -/
def narrow (x : UInt64) : UInt32 :=
  if x > COMPAT_RLIM_INFINITY.toUInt64 then COMPAT_RLIM_INFINITY else x.toUInt32

def compatSetrlimit (resource : UInt32) (r32 : CompatRlimit) : Int × Rlims :=
  setTo a rlims resource ⟨widen r32.cur, widen r32.max⟩

def compatGetrlimit (resource : UInt32) : Except Errno CompatRlimit :=
  match doPrlimit a rlims resource none with
  | .error e => .error e
  | .ok (r, _) => if a.copyToUser then .ok ⟨narrow r.cur, narrow r.max⟩ else .error EFAULT

end DoPrlimit

/-! ## The limits of another process -/

structure Task where
  pid : Int
  /-- The pid of the leader of its thread group. -/
  tgid : Int
  pgrp : Int
  uids : Ids
  gids : Ids
  nice : Int
  deriving DecidableEq, Repr

structure System where
  tasks : List Task
  /-- The limits of each thread group. -/
  rlim : Int → Rlims

def rlimToRlim64 (r : Rlimit) : Rlimit where
  cur := if r.cur = RLIM_INFINITY then RLIM_INFINITY else r.cur
  max := if r.max = RLIM_INFINITY then RLIM_INFINITY else r.max

def rlim64ToRlim (r : Rlimit) : Rlimit where
  cur := if r.cur = RLIM_INFINITY then RLIM_INFINITY else r.cur
  max := if r.max = RLIM_INFINITY then RLIM_INFINITY else r.max

/-- The ids that `check_prlimit_permission` compares. -/
def idMatch (me task : Task) : Prop :=
  (me.uids.id = task.uids.eid ∧ me.uids.id = task.uids.sid ∧ me.uids.id = task.uids.id) ∧
    me.gids.id = task.gids.eid ∧ me.gids.id = task.gids.sid ∧ me.gids.id = task.gids.id

instance (me task : Task) : Decidable (idMatch me task) :=
  inferInstanceAs (Decidable ((_ ∧ _ ∧ _) ∧ _ ∧ _ ∧ _))

def checkPrlimitPermission (a : Answers) (me task : Task) : Option Errno :=
  if me.pid = task.pid then none
  else if ¬ idMatch me task ∧ a.nsCapable = false then some EPERM
  else a.securityTaskPrlimit

def System.setRlims (s : System) (tgid : Int) (rlims : Rlims) : System :=
  { s with rlim := Function.update s.rlim tgid rlims }

/-- `prlimit64` by `me`; `old` tells whether the old limit is asked for, and is what is stored. -/
def prlimit64 (a : Answers) (s : System) (me : Task) (pid : Int) (resource : UInt32)
    (newRlim : Option Rlimit) (old : Bool) : Int × Option Rlimit × System :=
  if newRlim.isSome ∧ a.copyFromUser = false then (EFAULT.ret, none, s)
  else
    match if pid = 0 then some me else s.tasks.find? fun t => t.pid = pid with
    | none => (ESRCH.ret, none, s)
    | some tsk =>
      match checkPrlimitPermission a me tsk with
      | some e => (e.ret, none, s)
      | none =>
        match doPrlimit a (s.rlim tsk.tgid) resource (newRlim.map rlim64ToRlim) with
        | .error e => (e.ret, none, s)
        | .ok (oldRlim, rlims) =>
          -- the new limit is in force even when the old one cannot be stored
          let s' := s.setRlims tsk.tgid rlims
          if old = true ∧ a.copyToUser = false then (EFAULT.ret, none, s')
          else (0, if old then some (rlimToRlim64 oldRlim) else none, s')

/-! ## What a call can do -/

section Cases

variable {a : Answers} {rlims : Rlims}

/-- What a call needs to set a limit. -/
structure MaySet (a : Answers) (rlims : Rlims) (r : Resource) (new : Rlimit) : Prop where
  ordered : new.cur ≤ new.max
  nofile : r = RLIMIT_NOFILE → new.max ≤ a.sysctlNrOpen.toUInt64
  ceiling : a.capable = false → new.max ≤ (rlims r).max
  security : a.securityTaskSetrlimit = none

/-- A call fails, or the limit is the one of the resource and is set to the new one. -/
theorem doPrlimit_cases (resource : UInt32) (newRlim : Option Rlimit) :
    (∃ e, doPrlimit a rlims resource newRlim = .error e) ∨
      ∃ r : Resource, r.val = resource.toNat ∧ (∀ new ∈ newRlim, MaySet a rlims r new) ∧
        doPrlimit a rlims resource newRlim =
          .ok (rlims r, newRlim.elim rlims (Function.update rlims r)) := by
  unfold doPrlimit
  by_cases h : resource.toNat < RLIM_NLIMITS
  · rw [dif_pos h]
    cases newRlim with
    | none => exact .inr ⟨⟨_, h⟩, rfl, by simp, rfl⟩
    | some new =>
      dsimp only
      split_ifs with hordered hnofile hceiling
      · exact .inl ⟨EINVAL, rfl⟩
      · exact .inl ⟨EPERM, rfl⟩
      · exact .inl ⟨EPERM, rfl⟩
      · cases hsec : a.securityTaskSetrlimit with
        | some e => exact .inl ⟨e, rfl⟩
        | none =>
          refine .inr ⟨⟨_, h⟩, rfl, ?_, rfl⟩
          intro new' hnew
          obtain rfl := Option.some.inj hnew
          refine ⟨UInt64.not_lt.mp hordered, fun hr => ?_, fun hcap => ?_, hsec⟩
          · exact UInt64.not_lt.mp fun hgt => hnofile ⟨hr, hgt⟩
          · exact UInt64.not_lt.mp fun hgt => hceiling ⟨hgt, hcap⟩
  · exact .inl ⟨EINVAL, dif_neg h⟩

/-- Whoever may set a limit sets it. -/
theorem MaySet.doPrlimit {r : Resource} {new : Rlimit} (h : MaySet a rlims r new)
    {resource : UInt32} (hr : resource.toNat = r.val) :
    doPrlimit a rlims resource (some new) = .ok (rlims r, Function.update rlims r new) := by
  have hres : (⟨resource.toNat, hr ▸ r.isLt⟩ : Resource) = r := Fin.ext hr
  unfold Limits.doPrlimit
  rw [dif_pos (hr ▸ r.isLt)]
  dsimp only
  rw [hres, if_neg (UInt64.not_lt.mpr h.ordered),
    if_neg fun hn => UInt64.not_lt.mpr (h.nofile hn.1) hn.2,
    if_neg fun hc => UInt64.not_lt.mpr (h.ceiling hc.2) hc.1]
  simp only [h.security]

end Cases

/-! ## Programs of 32 bits -/

theorem toNat_widen (x : UInt32) :
    (widen x).toNat = if x.toNat = 4294967295 then 18446744073709551615 else x.toNat := by
  unfold widen
  by_cases hinf : x = COMPAT_RLIM_INFINITY
  · rw [if_pos hinf, hinf]
    rfl
  · have hne : x.toNat ≠ 4294967295 := fun h => hinf (UInt32.toNat_inj.mp h)
    rw [if_neg hinf, if_neg hne, UInt32.toNat_toUInt64]

theorem toNat_narrow (x : UInt64) : (narrow x).toNat = min x.toNat 4294967295 := by
  have hinf : COMPAT_RLIM_INFINITY.toUInt64.toNat = 4294967295 := rfl
  unfold narrow
  by_cases hgt : x > COMPAT_RLIM_INFINITY.toUInt64
  · rw [if_pos hgt]
    rw [gt_iff_lt, UInt64.lt_iff_toNat_lt, hinf] at hgt
    rw [Nat.min_eq_right (Nat.le_of_lt hgt)]
    rfl
  · rw [if_neg hgt]
    rw [gt_iff_lt, UInt64.lt_iff_toNat_lt, hinf] at hgt
    rw [UInt64.toNat_toUInt32]
    omega

theorem narrow_widen (x : UInt32) : narrow (widen x) = x := by
  have hx := x.toNat_lt
  apply UInt32.toNat_inj.mp
  rw [toNat_narrow, toNat_widen]
  split <;> omega

/-- A limit that a program of 32 bits reads exactly. -/
def Fits (x : UInt64) : Prop := x.toNat < 4294967295 ∨ x = RLIM_INFINITY

instance (x : UInt64) : Decidable (Fits x) := inferInstanceAs (Decidable (_ ∨ _))

theorem widen_narrow_iff (x : UInt64) : widen (narrow x) = x ↔ Fits x := by
  have hx := x.toNat_lt
  have hinf : x = RLIM_INFINITY ↔ x.toNat = 18446744073709551615 := UInt64.toNat_inj.symm
  rw [← UInt64.toNat_inj, toNat_widen, toNat_narrow, Fits, hinf]
  split <;> omega

section Compat

variable {a b : Answers} {rlims rlims' : Rlims}

theorem setTo_ok {resource : UInt32} {new : Rlimit} (h : setTo a rlims resource new = (0, rlims')) :
    ∃ r : Resource, r.val = resource.toNat ∧ MaySet a rlims r new ∧
      rlims' = Function.update rlims r new := by
  unfold setTo at h
  split at h
  · cases h
  · rcases @doPrlimit_cases a rlims resource (some new) with ⟨e, he⟩ | ⟨r, hr, hmay, hok⟩
    · rw [he] at h
      exact absurd (congrArg Prod.fst h) (Int.ne_of_lt e.ret_neg)
    · rw [hok] at h
      exact ⟨r, hr, hmay new rfl, (congrArg Prod.snd h).symm⟩

theorem doPrlimit_read {r : Resource} {resource : UInt32} (hr : r.val = resource.toNat) :
    doPrlimit a rlims resource none = .ok (rlims r, rlims) := by
  unfold doPrlimit
  rw [dif_pos (hr ▸ r.isLt)]
  have hres : (⟨resource.toNat, hr ▸ r.isLt⟩ : Resource) = r := Fin.ext hr.symm
  dsimp only
  rw [hres]

/-- **A program of 32 bits reads what it has set**, for any two numbers of 32 bits; other programs
    read the same limit, and infinity where the program has set its own infinity. -/
theorem compat_setget {resource : UInt32} {r32 : CompatRlimit}
    (h : compatSetrlimit a rlims resource r32 = (0, rlims')) (hcopy : b.copyToUser = true) :
    compatGetrlimit b rlims' resource = .ok r32 ∧
      getrlimit b rlims' resource = .ok ⟨widen r32.cur, widen r32.max⟩ := by
  obtain ⟨r, hr, -, rfl⟩ := setTo_ok h
  constructor
  · rw [compatGetrlimit, doPrlimit_read hr]
    simp only [hcopy, if_true, Function.update_self, narrow_widen]
  · rw [getrlimit, doPrlimit_read hr]
    simp only [hcopy, if_true, Function.update_self]

/-- A kernel that grants what needs no capability. -/
def Answers.plain : Answers := ⟨true, true, 1048576, false, false, none, none⟩

/-- Eight megabytes of stack, and no hard limits. -/
def Rlims.soft : Rlims := fun _ => ⟨8388608, RLIM_INFINITY⟩

/-- **What a program of 32 bits can put back**: when it sets the limit it has read, and nothing but
    the ceiling is in its way, the call succeeds without changing the limit if and only if both
    numbers are infinite or fit into its own. -/
theorem compat_getset_iff {r : Resource} {resource : UInt32} (hr : r.val = resource.toNat)
    {r32 : CompatRlimit} (hget : compatGetrlimit b rlims resource = .ok r32)
    (hordered : (rlims r).cur ≤ (rlims r).max) (hcopy : a.copyFromUser = true)
    (hsecurity : a.securityTaskSetrlimit = none)
    (hnofile : r = RLIMIT_NOFILE → (rlims r).max ≤ a.sysctlNrOpen.toUInt64) :
    compatSetrlimit a rlims resource r32 = (0, rlims) ↔
      Fits (rlims r).cur ∧ Fits (rlims r).max := by
  have hread : r32 = ⟨narrow (rlims r).cur, narrow (rlims r).max⟩ := by
    rw [compatGetrlimit, doPrlimit_read hr] at hget
    simp only at hget
    split at hget
    · exact (Except.ok.inj hget).symm
    · cases hget
  subst hread
  constructor
  · intro h
    obtain ⟨r', hr', -, hsame⟩ := setTo_ok h
    obtain rfl : r' = r := Fin.ext (hr'.trans hr.symm)
    have hval := congrFun hsame r'
    rw [Function.update_self] at hval
    have hcur : widen (narrow (rlims r').cur) = (rlims r').cur := (congrArg Rlimit.cur hval).symm
    have hmax : widen (narrow (rlims r').max) = (rlims r').max := (congrArg Rlimit.max hval).symm
    exact ⟨(widen_narrow_iff _).mp hcur, (widen_narrow_iff _).mp hmax⟩
  · rintro ⟨hcur, hmax⟩
    have hmay : MaySet a rlims r (rlims r) :=
      ⟨hordered, hnofile, fun _ => UInt64.le_refl _, hsecurity⟩
    rw [compatSetrlimit, (widen_narrow_iff _).mpr hcur, (widen_narrow_iff _).mpr hmax, setTo,
      if_neg (by simp [hcopy]), hmay.doPrlimit hr.symm]
    simp only [Function.update_eq_self]

/-- A limit of four gigabytes does not fit, and is not put back. -/
theorem compat_getset_iff_soft :
    compatSetrlimit .plain .soft 3 ⟨8388608, COMPAT_RLIM_INFINITY⟩ = (0, .soft) ∧
      compatSetrlimit .plain (fun _ => ⟨0, 4294967296⟩) 3 ⟨0, COMPAT_RLIM_INFINITY⟩ ≠
        (0, fun _ => ⟨0, 4294967296⟩) := by
  have hsoft := @compat_getset_iff .plain .plain .soft ⟨3, by decide⟩ 3 rfl
    ⟨8388608, COMPAT_RLIM_INFINITY⟩ rfl (by decide) rfl rfl (by decide)
  have hfour := @compat_getset_iff .plain .plain (fun _ => ⟨0, 4294967296⟩) ⟨3, by decide⟩ 3 rfl
    ⟨0, COMPAT_RLIM_INFINITY⟩ rfl (by decide) rfl rfl (by decide)
  exact ⟨hsoft.mpr (by decide), fun h => absurd (hfour.mp h) (by decide)⟩

end Compat

end UsacSyscalls.Sys.Limits
