import UsacSyscalls.Sys.Limits

/-!
# Priorities

Reference model of `setpriority` and `getpriority` of `kernel/sys.c`.  Both work on a task, a
process group or the tasks of a user; the tasks are visited in the order of the list.

* `setpriority_spec` — who gets the new value, also when the call fails, and exactly when it
  succeeds.
* `getpriority_setpriority` — what is read after it has succeeded.
-/

set_option autoImplicit false

namespace UsacSyscalls.Sys.Priority

open Limits

/-! ## The calls -/

def MIN_NICE : Int := -20
def MAX_NICE : Int := 19

def PRIO_PROCESS : Int := 0
def PRIO_PGRP : Int := 1
def PRIO_USER : Int := 2

def RLIMIT_NICE : Resource := ⟨13, by decide⟩

/-- `nice_to_rlimit`: 40 to 1 for -20 to 19. -/
def niceToRlimit (nice : Int) : Int := MAX_NICE - nice + 1

/-- The kernel's answers during one call. -/
structure Answers where
  /-- `make_kuid` in the user namespace of the caller. -/
  makeKuid : Int → UInt32
  findUser : UInt32 → Bool
  /-- `ns_capable` for `CAP_SYS_NICE` in the user namespace of the task. -/
  nsCapable : Task → Bool
  /-- `can_nice`, for a task with this `RLIMIT_NICE`. -/
  canNice : Rlimit → Int → Bool
  securityTaskSetnice : Task → Int → Option Errno

section Calls

variable (a : Answers) (me : Task) (rlim : Int → Rlims)

/-- Whether a call works on a task. -/
def selects (which who : Int) (p : Task) : Bool :=
  if which = PRIO_PROCESS then p.pid = if who = 0 then me.pid else who
  else if which = PRIO_PGRP then p.pgrp = if who = 0 then me.pgrp else who
  else
    let uid := if who = 0 then me.uids.id else a.makeKuid who
    (uid = me.uids.id || a.findUser uid) && (p.uids.id = uid && p.pid ≠ 0)

def setOnePrioPerm (p : Task) : Bool :=
  p.uids.id = me.uids.eid || p.uids.eid = me.uids.eid || a.nsCapable p

/-- A task is found: the error so far is kept, unless it says that there is none. -/
def found (error : Int) : Int := if error = ESRCH.ret then 0 else error

/-- `set_one_prio`: an error of the task takes the place of the error so far. -/
def setOnePrio (p : Task) (niceval error : Int) : Int × Task :=
  if setOnePrioPerm a me p = false then (EPERM.ret, p)
  else if niceval < p.nice ∧ a.canNice (rlim p.tgid RLIMIT_NICE) niceval = false then
    (EACCES.ret, p)
  else
    match a.securityTaskSetnice p niceval with
    | some e => (e.ret, p)
    | none => (found error, { p with nice := niceval })

/-- The loop over the tasks. -/
def setEach (sel : Task → Bool) (niceval : Int) : Int → List Task → Int × List Task
  | error, [] => (error, [])
  | error, p :: ps =>
    if sel p then
      let one := setOnePrio a me rlim p niceval error
      let rest := setEach sel niceval one.1 ps
      (rest.1, one.2 :: rest.2)
    else
      let rest := setEach sel niceval error ps
      (rest.1, p :: rest.2)

def clamp (niceval : Int) : Int :=
  let niceval := if niceval < MIN_NICE then MIN_NICE else niceval
  if niceval > MAX_NICE then MAX_NICE else niceval

def setpriority (s : System) (which who niceval : Int) : Int × System :=
  if which > PRIO_USER ∨ which < PRIO_PROCESS then (EINVAL.ret, s)
  else
    let r := setEach a me s.rlim (selects a me which who) (clamp niceval) ESRCH.ret s.tasks
    (r.1, { s with tasks := r.2 })

/-- The loop of `getpriority`. -/
def maxEach (sel : Task → Bool) : Int → List Task → Int
  | retval, [] => retval
  | retval, p :: ps =>
    if sel p then
      let niceval := niceToRlimit p.nice
      maxEach sel (if niceval > retval then niceval else retval) ps
    else maxEach sel retval ps

def getpriority (s : System) (which who : Int) : Int :=
  if which > PRIO_USER ∨ which < PRIO_PROCESS then EINVAL.ret
  else maxEach (selects a me which who) ESRCH.ret s.tasks

end Calls

/-! ## Setting -/

/-- What it takes to set the value of a task. -/
structure Allowed (a : Answers) (me : Task) (rlim : Int → Rlims) (niceval : Int) (p : Task) :
    Prop where
  perm : setOnePrioPerm a me p = true
  canNice : niceval < p.nice → a.canNice (rlim p.tgid RLIMIT_NICE) niceval = true
  security : a.securityTaskSetnice p niceval = none

theorem allowed_iff {a : Answers} {me p : Task} {rlim : Int → Rlims} {niceval : Int} :
    Allowed a me rlim niceval p ↔ setOnePrioPerm a me p = true ∧
      (niceval < p.nice → a.canNice (rlim p.tgid RLIMIT_NICE) niceval = true) ∧
        a.securityTaskSetnice p niceval = none :=
  ⟨fun h => ⟨h.perm, h.canNice, h.security⟩, fun ⟨h₁, h₂, h₃⟩ => ⟨h₁, h₂, h₃⟩⟩

instance (a : Answers) (me : Task) (rlim : Int → Rlims) (niceval : Int) (p : Task) :
    Decidable (Allowed a me rlim niceval p) := decidable_of_iff _ allowed_iff.symm

section Spec

variable {a : Answers} {me : Task} {rlim : Int → Rlims} {niceval : Int}

theorem setOnePrio_allowed {p : Task} (h : Allowed a me rlim niceval p) (error : Int) :
    setOnePrio a me rlim p niceval error = (found error, { p with nice := niceval }) := by
  unfold setOnePrio
  rw [if_neg (by simp [h.perm]), if_neg fun hn => by simp [h.canNice hn.1] at hn]
  simp only [h.security]

/-- A security module may not answer that there is no such process. -/
def NoEsrch (a : Answers) : Prop := ∀ p niceval, a.securityTaskSetnice p niceval ≠ some ESRCH

theorem setOnePrio_refused {p : Task} (h : ¬ Allowed a me rlim niceval p) (error : Int) :
    ∃ e : Errno, (NoEsrch a → e ≠ ESRCH) ∧ setOnePrio a me rlim p niceval error = (e.ret, p) := by
  unfold setOnePrio
  split_ifs with hperm hnice
  · exact ⟨EPERM, fun _ => by decide, rfl⟩
  · exact ⟨EACCES, fun _ => by decide, rfl⟩
  · cases hs : a.securityTaskSetnice p niceval with
    | some e =>
      refine ⟨e, fun hsec => ?_, rfl⟩
      rintro rfl
      exact hsec p niceval hs
    | none =>
      refine absurd ⟨by simpa using hperm, fun hlt => ?_, hs⟩ h
      simpa [hlt] using hnice

/-- The task after the call. -/
def after (a : Answers) (me : Task) (rlim : Int → Rlims) (sel : Task → Bool) (niceval : Int)
    (p : Task) : Task :=
  if sel p = true ∧ Allowed a me rlim niceval p then { p with nice := niceval } else p

theorem ret_inj {e e' : Errno} (h : e.ret = e'.ret) : e = e' := by
  obtain ⟨c, _, _⟩ := e
  obtain ⟨c', _, _⟩ := e'
  simp only [Errno.ret] at h
  have hc : c = c' := by omega
  subst hc
  rfl

theorem found_iff {error : Int} {P : Prop} :
    (found error = 0 ∨ found error = ESRCH.ret ∧ P) ↔ (error = 0 ∨ error = ESRCH.ret) := by
  have hne : (0 : Int) ≠ ESRCH.ret := by decide
  unfold found
  by_cases h : error = ESRCH.ret
  · simp [h]
  · simp [h]

/-- The loop, by recursion on the tasks: an error stays until another one takes its place. -/
theorem setEach_spec (sel : Task → Bool) (ps : List Task) (error : Int) :
    (setEach a me rlim sel niceval error ps).2 = ps.map (after a me rlim sel niceval) ∧
      (NoEsrch a → ((setEach a me rlim sel niceval error ps).1 = 0 ↔
        (∀ p ∈ ps, sel p = true → Allowed a me rlim niceval p) ∧
          (error = 0 ∨ error = ESRCH.ret ∧ ∃ p ∈ ps, sel p = true))) := by
  induction ps generalizing error with
  | nil => simp [setEach]
  | cons p ps ih =>
    simp only [List.map_cons, List.mem_cons, forall_eq_or_imp, exists_eq_or_imp]
    by_cases hsel : sel p = true
    · by_cases hallowed : Allowed a me rlim niceval p
      · obtain ⟨htasks, hzero⟩ := ih (found error)
        simp only [setEach, hsel, if_true, setOnePrio_allowed hallowed, htasks, after, hallowed,
          and_self, true_and, forall_const, true_or, and_true]
        intro hsec
        rw [hzero hsec, found_iff]
      · obtain ⟨e, he, hone⟩ := setOnePrio_refused hallowed error
        obtain ⟨htasks, hzero⟩ := ih e.ret
        simp only [setEach, hsel, if_true, hone, htasks, after, hallowed, and_false, if_false,
          forall_const, false_and, true_and, iff_false]
        intro hsec hend
        rcases ((hzero hsec).mp hend).2 with h | ⟨h, -⟩
        · exact absurd h (Int.ne_of_lt e.ret_neg)
        · exact he hsec (ret_inj h)
    · obtain ⟨htasks, hzero⟩ := ih error
      simp only [setEach, hsel, htasks, after, if_false, false_and, false_imp_iff, true_and,
        false_or, Bool.false_eq_true]
      exact hzero

theorem setpriority_eq (s : System) {which : Int} (who niceval : Int)
    (hwhich : PRIO_PROCESS ≤ which ∧ which ≤ PRIO_USER) :
    setpriority a me s which who niceval =
      ((setEach a me s.rlim (selects a me which who) (clamp niceval) ESRCH.ret s.tasks).1,
        { s with
          tasks := s.tasks.map (after a me s.rlim (selects a me which who) (clamp niceval)) }) := by
  simp only [setpriority]
  rw [if_neg (by omega), (setEach_spec (selects a me which who) s.tasks ESRCH.ret).1]

/-- The loop of a call that has found nothing yet. -/
theorem setEach_zero_iff (sel : Task → Bool) (hsec : NoEsrch a) (ps : List Task) :
    (setEach a me rlim sel niceval ESRCH.ret ps).1 = 0 ↔
      (∃ p ∈ ps, sel p = true) ∧ ∀ p ∈ ps, sel p = true → Allowed a me rlim niceval p := by
  have hne : ESRCH.ret ≠ 0 := by decide
  rw [(setEach_spec sel ps ESRCH.ret).2 hsec, and_comm]
  simp only [hne, false_or, true_and]

/-- **Who gets the new value**: the selected tasks for which it is allowed, also when the call fails
    because of others; nobody else.  It succeeds if and only if there is a selected task, and it is
    allowed for all of them. -/
theorem setpriority_spec (s : System) {which : Int} (who niceval : Int)
    (hwhich : PRIO_PROCESS ≤ which ∧ which ≤ PRIO_USER) (hsec : NoEsrch a) :
    let sel := selects a me which who
    (setpriority a me s which who niceval).2 =
        { s with tasks := s.tasks.map (after a me s.rlim sel (clamp niceval)) } ∧
      ((setpriority a me s which who niceval).1 = 0 ↔
        (∃ p ∈ s.tasks, sel p = true) ∧
          ∀ p ∈ s.tasks, sel p = true → Allowed a me s.rlim (clamp niceval) p) := by
  simp only [setpriority_eq s who niceval hwhich, true_and]
  exact setEach_zero_iff (selects a me which who) hsec s.tasks

end Spec

/-- The kernel's answers to a caller without the capability. -/
def Answers.plain : Answers where
  makeKuid who := who.toNat.toUInt32
  findUser _ := true
  nsCapable _ := false
  canNice lim niceval := niceToRlimit niceval ≤ lim.cur.toNat
  securityTaskSetnice _ _ := none

theorem plain_noEsrch : NoEsrch .plain := fun _ _ => by simp [Answers.plain]

/-- A task of a group, and its user. -/
def member (pid : Int) (user : UInt32) : Task := ⟨pid, pid, 7, .all user, .all 100, 0⟩

def mixed : System := ⟨[member 7 1000, member 8 0, member 9 1000], fun _ => .soft⟩

/-- A group with a task of another user. -/
theorem setpriority_spec_mixed :
    ((setpriority .plain (member 7 1000) mixed PRIO_PGRP 0 5).2.tasks.map Task.nice) = [5, 0, 5] ∧
      (setpriority .plain (member 7 1000) mixed PRIO_PGRP 0 5).1 ≠ 0 := by
  obtain ⟨htasks, hzero⟩ := @setpriority_spec .plain (member 7 1000) mixed PRIO_PGRP 0 5 (by decide)
    plain_noEsrch
  refine ⟨?_, fun h => absurd (hzero.mp h) (by decide)⟩
  rw [htasks]
  decide

/-! ## Reading what was set -/

theorem clamp_bounds (niceval : Int) : MIN_NICE ≤ clamp niceval ∧ clamp niceval ≤ MAX_NICE := by
  simp only [clamp, MIN_NICE, MAX_NICE]
  split_ifs <;> omega

/-- The greatest value of tasks that all have the same. -/
theorem maxEach_const {sel : Task → Bool} {n : Int} {ps : List Task} {retval : Int}
    (hlt : retval ≤ niceToRlimit n) (h : ∀ p ∈ ps, sel p = true → p.nice = n) :
    maxEach sel retval ps = if ps.any sel then niceToRlimit n else retval := by
  induction ps generalizing retval with
  | nil => rfl
  | cons p ps ih =>
    have hps : ∀ q ∈ ps, sel q = true → q.nice = n := fun q hq => h q (List.mem_cons_of_mem p hq)
    rw [maxEach, List.any_cons]
    by_cases hsel : sel p = true
    · have hmax : (if niceToRlimit p.nice > retval then niceToRlimit p.nice else retval) =
          niceToRlimit n := by
        rw [h p List.mem_cons_self hsel]
        split <;> omega
      rw [if_pos hsel]
      dsimp only
      rw [hmax, ih (Int.le_refl _) hps, hsel, Bool.true_or, if_pos rfl, ite_self]
    · rw [if_neg hsel, ih hlt hps, Bool.eq_false_iff.mpr hsel, Bool.false_or]

theorem selects_after {a : Answers} {me : Task} {rlim : Int → Rlims} {sel : Task → Bool}
    {niceval which who : Int} (p : Task) :
    selects a me which who (after a me rlim sel niceval p) = selects a me which who p := by
  unfold after
  split <;> rfl

/-- **What is read after it has succeeded**: a successful `setpriority` is followed by a
    `getpriority` that answers the value, cut off at the ends of its range and turned around,
    whichever tasks the two work on. -/
theorem getpriority_setpriority {a b : Answers} {me : Task} {s : System} {which who niceval : Int}
    (hsec : NoEsrch a) (hok : (setpriority a me s which who niceval).1 = 0)
    (hkuid : b.makeKuid = a.makeKuid) (huser : b.findUser = a.findUser) :
    getpriority b me (setpriority a me s which who niceval).2 which who = 20 - clamp niceval := by
  have hwhich : PRIO_PROCESS ≤ which ∧ which ≤ PRIO_USER := by
    by_contra hout
    rw [setpriority, if_pos (by omega)] at hok
    have hinval : EINVAL.ret = 0 := hok
    exact absurd hinval (by decide)
  rw [setpriority_eq s who niceval hwhich] at hok ⊢
  obtain ⟨⟨p, hp, hsel⟩, hallowed⟩ := (setEach_zero_iff _ hsec s.tasks).mp hok
  have hsame : selects b me which who = selects a me which who := by
    funext q
    simp only [selects, hkuid, huser]
  have hclamp := clamp_bounds niceval
  rw [getpriority, if_neg (by omega), hsame]
  -- all selected tasks have the value
  have hnice : ∀ q ∈ s.tasks.map (after a me s.rlim (selects a me which who) (clamp niceval)),
      selects a me which who q = true → q.nice = clamp niceval := by
    intro q' hq' hsel'
    obtain ⟨q, hq, rfl⟩ := List.mem_map.mp hq'
    rw [selects_after] at hsel'
    rw [after, if_pos ⟨hsel', hallowed q hq hsel'⟩]
  have hany : (s.tasks.map (after a me s.rlim (selects a me which who) (clamp niceval))).any
      (selects a me which who) = true := by
    refine List.any_eq_true.mpr ⟨_, List.mem_map_of_mem hp, ?_⟩
    rw [selects_after]
    exact hsel
  have hlow : ESRCH.ret ≤ niceToRlimit (clamp niceval) := by
    have hesrch : ESRCH.ret = -3 := rfl
    simp only [niceToRlimit, MIN_NICE, MAX_NICE] at hclamp ⊢
    omega
  rw [maxEach_const hlow hnice, if_pos hany]
  simp only [niceToRlimit, MAX_NICE]
  omega

/-- The tasks of a user. -/
theorem getpriority_setpriority_mixed :
    let s := (setpriority .plain (member 7 1000) mixed PRIO_USER 1000 100).2
    getpriority .plain (member 7 1000) s PRIO_USER 1000 = 1 :=
  getpriority_setpriority (a := .plain) (b := .plain) plain_noEsrch rfl rfl rfl

end UsacSyscalls.Sys.Priority
