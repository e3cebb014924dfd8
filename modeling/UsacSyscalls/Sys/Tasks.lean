import UsacSyscalls.Lib.Run
import UsacSyscalls.Sys.Priority

/-!
# Tasks and their users

The tasks of a system change their ids, their limits and their priorities by the system calls of
`kernel/sys.c`, fork, start threads and end, in any order and with any answers of the kernel.

* `step_effect` — what one step can do to the limits and to the tasks.
* `reach_capped` — without `CAP_SYS_RESOURCE` nobody gets over the hard limits of the start.
* `reach_isolated` — without capabilities one user cannot change the limits of another one, who
  shares no id and no thread group with the other tasks.
* `exec_bounded` — without the capabilities for limits and priorities nobody gets a higher priority
  than `RLIMIT_NICE` allows.
-/

set_option autoImplicit false

namespace UsacSyscalls.Sys.Tasks

open Lib.Run Limits Priority

/-! ## The system -/

inductive Actor where
  | setid (caller : Int) (kind : Kind) (call : SetidCall) (answers : Sys.Answers)
  | setrlimit (caller : Int) (answers : Limits.Answers) (resource : UInt32) (newRlim : Rlimit)
  | compatSetrlimit (caller : Int) (answers : Limits.Answers) (resource : UInt32)
      (r32 : CompatRlimit)
  | prlimit64 (caller : Int) (answers : Limits.Answers) (pid : Int) (resource : UInt32)
      (newRlim : Option Rlimit) (old : Bool)
  | setpriority (caller : Int) (answers : Priority.Answers) (which who niceval : Int)
  | fork (caller child : Int)
  | thread (caller tid : Int)
  /-- `setpgid` or `setsid`, which move the tasks of a thread group one by one. -/
  | regroup (pid pgrp : Int)
  | exit (pid : Int)

def find (s : System) (pid : Int) : Option Task := s.tasks.find? fun t => t.pid = pid

def change (s : System) (pid : Int) (f : Task → Task) : System :=
  { s with tasks := s.tasks.map fun t => if t.pid = pid then f t else t }

/-- The ids after one of the calls of `SetidCall`. -/
def withIds (kind : Kind) (call : SetidCall) (a : Sys.Answers) (t : Task) : Task :=
  match kind with
  | .user => { t with uids := (call.run .user a t.uids).2 }
  | .group => { t with gids := (call.run .group a t.gids).2 }

/-- Whether a number is not in use. -/
def Fresh (s : System) (n : Int) : Prop := 0 < n ∧ ∀ t ∈ s.tasks, t.pid ≠ n ∧ t.tgid ≠ n

instance (s : System) (n : Int) : Decidable (Fresh s n) :=
  inferInstanceAs (Decidable (_ ∧ ∀ t ∈ s.tasks, _))

def step : Actor → System → Option System
  | .setid caller kind call a, s => some (change s caller (withIds kind call a))
  | .setrlimit caller a resource newRlim, s =>
    (find s caller).map fun me =>
      s.setRlims me.tgid (setrlimit a (s.rlim me.tgid) resource newRlim).2
  | .compatSetrlimit caller a resource r32, s =>
    (find s caller).map fun me =>
      s.setRlims me.tgid (compatSetrlimit a (s.rlim me.tgid) resource r32).2
  | .prlimit64 caller a pid resource newRlim old, s =>
    (find s caller).map fun me => (prlimit64 a s me pid resource newRlim old).2.2
  | .setpriority caller a which who niceval, s =>
    (find s caller).map fun me => (setpriority a me s which who niceval).2
  | .fork caller child, s =>
    if Fresh s child then
      (find s caller).map fun me =>
        { tasks := s.tasks ++ [{ me with pid := child, tgid := child }]
          rlim := Function.update s.rlim child (s.rlim me.tgid) }
    else none
  | .thread caller tid, s =>
    if Fresh s tid then
      (find s caller).map fun me => { s with tasks := s.tasks ++ [{ me with pid := tid }] }
    else none
  | .regroup pid pgrp, s => some (change s pid fun t => { t with pgrp := pgrp })
  | .exit pid, s => some { s with tasks := s.tasks.filter fun t => t.pid ≠ pid }

/-- Whether a call has a capability for ids or limits. -/
def Actor.privileged : Actor → Bool
  | .setid _ _ _ a => a.nsCapableSetid
  | .setrlimit _ a _ _ => a.capable
  | .compatSetrlimit _ a _ _ => a.capable
  | .prlimit64 _ a _ _ _ _ => a.capable || a.nsCapable
  | _ => false

/-- Whether a call has `CAP_SYS_RESOURCE`, with which a hard limit can be raised. -/
def Actor.mayRaise : Actor → Bool
  | .setrlimit _ a _ _ => a.capable
  | .compatSetrlimit _ a _ _ => a.capable
  | .prlimit64 _ a _ _ _ _ => a.capable
  | _ => false

/-- The caller of a call that sets a limit. -/
def Actor.setter : Actor → Option Int
  | .setrlimit caller _ _ _ => some caller
  | .compatSetrlimit caller _ _ _ => some caller
  | .prlimit64 caller _ _ _ (some _) _ => some caller
  | _ => none

/-- What `can_nice` does without the capability: it looks at the soft limit. -/
def Actor.Plain : Actor → Prop
  | .setpriority _ a _ _ _ =>
    ∀ lim niceval, a.canNice lim niceval = true → niceToRlimit niceval ≤ lim.cur.toNat
  | _ => True

/-! ## What a step can do -/

/-- A task has no higher priority than before, or one that its soft limit allows. -/
def NiceWithin (s : System) (t t' : Task) : Prop :=
  t.nice ≤ t'.nice ∨ niceToRlimit t'.nice ≤ (s.rlim t.tgid RLIMIT_NICE).cur.toNat

theorem NiceWithin.refl (s : System) (t : Task) : NiceWithin s t t := .inl (Int.le_refl _)

/-- A limit is set, a task forks, or the limits stay and every task there is then comes from one
    of the same thread group. -/
inductive Effect (a : Actor) (s s' : System) : Prop where
  | limit (me tsk : Task) (hme : me ∈ s.tasks) (htsk : tsk ∈ s.tasks) (r : Resource) (new : Rlimit)
      (hsetter : a.setter = some me.pid)
      (hwho : a.privileged = false → tsk = me ∨ idMatch me tsk) (hordered : new.cur ≤ new.max)
      (hceiling : a.mayRaise = false → new.max ≤ (s.rlim tsk.tgid r).max)
      (h : s' = s.setRlims tsk.tgid (Function.update (s.rlim tsk.tgid) r new))
  | forked (me : Task) (hme : me ∈ s.tasks) (child : Int) (hfresh : Fresh s child)
      (htasks : s'.tasks = s.tasks ++ [{ me with pid := child, tgid := child }])
      (hrlim : s'.rlim = Function.update s.rlim child (s.rlim me.tgid))
  | kept (hrlim : s'.rlim = s.rlim) (htasks : ∀ t' ∈ s'.tasks, ∃ t ∈ s.tasks, t'.tgid = t.tgid ∧
      (a.privileged = false → Within t.uids t'.uids) ∧ (a.Plain → NiceWithin s t t'))

theorem Effect.refl (a : Actor) (s : System) : Effect a s s :=
  .kept rfl fun t ht => ⟨t, ht, rfl, fun _ => .refl t.uids, fun _ => .refl s t⟩

theorem mem_of_find {s : System} {pid : Int} {t : Task} (h : find s pid = some t) :
    t ∈ s.tasks ∧ t.pid = pid :=
  ⟨List.mem_of_find?_eq_some h, by simpa using List.find?_some h⟩

/-- Changing tasks in place. -/
theorem Effect.of_change {a : Actor} {s : System} {pid : Int} {f : Task → Task}
    (hf : ∀ t, (f t).tgid = t.tgid ∧ (f t).nice = t.nice ∧
      (a.privileged = false → Within t.uids (f t).uids)) :
    Effect a s (change s pid f) := by
  refine .kept rfl fun t' ht' => ?_
  obtain ⟨t, ht, rfl⟩ := List.mem_map.mp ht'
  refine ⟨t, ht, ?_⟩
  split
  · obtain ⟨hgroup, hnice, hids⟩ := hf t
    exact ⟨hgroup, hids, fun _ => .inl (Int.le_of_eq hnice.symm)⟩
  · exact ⟨rfl, fun _ => .refl t.uids, fun _ => .refl s t⟩

theorem withIds_frame (kind : Kind) (call : SetidCall) (a : Sys.Answers) (t : Task) :
    (withIds kind call a t).tgid = t.tgid ∧ (withIds kind call a t).nice = t.nice := by
  cases kind <;> exact ⟨rfl, rfl⟩

theorem withIds_within {kind : Kind} {call : SetidCall} {a : Sys.Answers} (t : Task)
    (h : a.nsCapableSetid = false) : Within t.uids (withIds kind call a t).uids := by
  cases kind with
  | user => exact run_within h call
  | group => exact .refl t.uids

/-- `setrlimit`, in both widths, leaves the limits as they are or sets one. -/
theorem setTo_cases (a : Limits.Answers) (rlims : Rlims) (resource : UInt32) (new : Rlimit) :
    (setTo a rlims resource new).2 = rlims ∨
      ∃ r, MaySet a rlims r new ∧ (setTo a rlims resource new).2 = Function.update rlims r new := by
  by_cases hok : (setTo a rlims resource new).1 = 0
  · obtain ⟨r, -, hmay, heq⟩ := setTo_ok (Prod.ext hok rfl)
    exact .inr ⟨r, hmay, heq⟩
  · refine .inl ?_
    unfold setTo at hok ⊢
    split
    · rfl
    · rename_i hcopy
      rw [if_neg hcopy] at hok
      cases h : doPrlimit a rlims resource (some new) with
      | error e => rfl
      | ok r => rw [h] at hok; exact absurd rfl hok

theorem setRlims_self (s : System) (tgid : Int) : s.setRlims tgid (s.rlim tgid) = s := by
  simp only [System.setRlims, Function.update_eq_self]

/-- `prlimit64` changes nothing, or sets the limit of a task that it may look at. -/
theorem prlimit64_cases (a : Limits.Answers) (s : System) {me : Task} (hme : find s me.pid = some me)
    (pid : Int) (resource : UInt32) (newRlim : Option Rlimit) (old : Bool) :
    (prlimit64 a s me pid resource newRlim old).2.2 = s ∨
      ∃ tsk ∈ s.tasks, ∃ r new, newRlim = some new ∧
        (tsk = me ∨ idMatch me tsk ∨ a.nsCapable = true) ∧
        MaySet a (s.rlim tsk.tgid) r (rlim64ToRlim new) ∧
        (prlimit64 a s me pid resource newRlim old).2.2 =
          s.setRlims tsk.tgid (Function.update (s.rlim tsk.tgid) r (rlim64ToRlim new)) := by
  unfold prlimit64
  split
  · exact .inl rfl
  · cases hfind : (if pid = 0 then some me else s.tasks.find? fun t => t.pid = pid) with
    | none => exact .inl rfl
    | some tsk =>
      have htsk : tsk ∈ s.tasks ∧ (tsk.pid = me.pid → tsk = me) := by
        by_cases hzero : pid = 0
        · rw [if_pos hzero] at hfind
          obtain rfl := Option.some.inj hfind
          exact ⟨(mem_of_find hme).1, fun _ => rfl⟩
        · rw [if_neg hzero] at hfind
          obtain ⟨hmem, rfl⟩ := mem_of_find hfind
          refine ⟨hmem, fun hpid => ?_⟩
          rw [find, ← hpid, hfind] at hme
          exact Option.some.inj hme
      cases hperm : checkPrlimitPermission a me tsk with
      | some e => exact .inl (by simp only [hperm])
      | none =>
        have hwho : tsk = me ∨ idMatch me tsk ∨ a.nsCapable = true := by
          unfold checkPrlimitPermission at hperm
          split at hperm
          · exact .inl (htsk.2 (Eq.symm ‹_›))
          · split at hperm
            · cases hperm
            · rename_i hmatch
              by_cases hid : idMatch me tsk
              · exact .inr (.inl hid)
              · exact .inr (.inr (by simpa [hid] using hmatch))
        rcases @doPrlimit_cases a (s.rlim tsk.tgid) resource (newRlim.map rlim64ToRlim) with
          ⟨e, he⟩ | ⟨r, -, hmay, hok⟩
        · exact .inl (by simp only [hperm, he])
        · simp only [hperm, hok]
          cases newRlim with
          | none =>
            refine .inl ?_
            simp only [Option.map_none, Option.elim_none, setRlims_self]
            split <;> rfl
          | some new =>
            refine .inr ⟨tsk, htsk.1, r, new, rfl, hwho, hmay _ rfl, ?_⟩
            simp only [Option.map_some, Option.elim_some]
            split <;> rfl

theorem setpriority_cases (a : Priority.Answers) (me : Task) (s : System) (which who niceval : Int) :
    (setpriority a me s which who niceval).2 = s ∨
      (setpriority a me s which who niceval).2 = { s with
        tasks := s.tasks.map (after a me s.rlim (selects a me which who) (clamp niceval)) } := by
  by_cases hwhich : PRIO_PROCESS ≤ which ∧ which ≤ PRIO_USER
  · exact .inr (congrArg Prod.snd (setpriority_eq s who niceval hwhich))
  · rw [setpriority, if_pos (by omega)]
    exact .inl rfl

/-- A limit of its own that a task sets in either width. -/
theorem setTo_effect {a : Actor} {s : System} {me : Task} {answers : Limits.Answers}
    {resource : UInt32} {new : Rlimit} (hme : me ∈ s.tasks) (hsetter : a.setter = some me.pid)
    (hcap : a.mayRaise = answers.capable) :
    Effect a s (s.setRlims me.tgid (setTo answers (s.rlim me.tgid) resource new).2) := by
  rcases setTo_cases answers (s.rlim me.tgid) resource new with hsame | ⟨r, hmay, heq⟩
  · rw [hsame, setRlims_self]
    exact .refl a s
  · rw [heq]
    exact .limit me me hme hme r new hsetter (fun _ => .inl rfl) hmay.ordered
      (fun h => hmay.ceiling (hcap.symm.trans h)) rfl

theorem step_effect {a : Actor} {s s' : System} (h : step a s = some s') : Effect a s s' := by
  cases a with
  | setid caller kind call answers =>
    cases h
    exact .of_change fun t => ⟨(withIds_frame kind call answers t).1,
      (withIds_frame kind call answers t).2, withIds_within t⟩
  | setrlimit caller answers resource newRlim =>
    obtain ⟨me, hme, rfl⟩ := Option.map_eq_some_iff.mp h
    obtain ⟨hmem, rfl⟩ := mem_of_find hme
    exact setTo_effect hmem rfl rfl
  | compatSetrlimit caller answers resource r32 =>
    obtain ⟨me, hme, rfl⟩ := Option.map_eq_some_iff.mp h
    obtain ⟨hmem, rfl⟩ := mem_of_find hme
    exact setTo_effect hmem rfl rfl
  | prlimit64 caller answers pid resource newRlim old =>
    obtain ⟨me, hme, rfl⟩ := Option.map_eq_some_iff.mp h
    obtain ⟨hmem, rfl⟩ := mem_of_find hme
    rcases prlimit64_cases answers s hme pid resource newRlim old with
      hsame | ⟨tsk, htsk, r, new, rfl, hwho, hmay, heq⟩
    · rw [hsame]
      exact .refl _ s
    · refine .limit me tsk hmem htsk r _ rfl (fun hcap => ?_) hmay.ordered hmay.ceiling heq
      obtain ⟨-, hns⟩ := Bool.or_eq_false_iff.mp hcap
      simpa only [hns, Bool.false_eq_true, or_false] using hwho
  | setpriority caller answers which who niceval =>
    obtain ⟨me, -, rfl⟩ := Option.map_eq_some_iff.mp h
    rcases setpriority_cases answers me s which who niceval with hsame | heq
    · rw [hsame]
      exact .refl _ s
    · rw [heq]
      refine .kept rfl fun t' ht' => ?_
      obtain ⟨t, ht, rfl⟩ := List.mem_map.mp ht'
      refine ⟨t, ht, ?_⟩
      unfold after
      split
      · rename_i hallowed
        refine ⟨rfl, fun _ => .refl t.uids, fun hplain => ?_⟩
        by_cases hlt : clamp niceval < t.nice
        · exact .inr (hplain _ _ (hallowed.2.canNice hlt))
        · exact .inl (Int.not_lt.mp hlt)
      · exact ⟨rfl, fun _ => .refl t.uids, fun _ => .refl s t⟩
  | fork caller child =>
    simp only [step] at h
    split at h
    · rename_i hfresh
      obtain ⟨me, hme, rfl⟩ := Option.map_eq_some_iff.mp h
      exact .forked me (mem_of_find hme).1 child hfresh rfl rfl
    · cases h
  | thread caller tid =>
    simp only [step] at h
    split at h
    · obtain ⟨me, hme, rfl⟩ := Option.map_eq_some_iff.mp h
      refine .kept rfl fun t' ht' => ?_
      rcases List.mem_append.mp ht' with ht | ht
      · exact ⟨t', ht, rfl, fun _ => .refl t'.uids, fun _ => .refl s t'⟩
      · rw [List.mem_singleton.mp ht]
        exact ⟨me, (mem_of_find hme).1, rfl, fun _ => .refl me.uids, fun _ => .refl s me⟩
    · cases h
  | regroup pid pgrp =>
    cases h
    exact .of_change fun t => ⟨rfl, rfl, fun _ => .refl t.uids⟩
  | exit pid =>
    cases h
    exact .kept rfl fun t ht => ⟨t, (List.mem_filter.mp ht).1, rfl, fun _ => .refl t.uids,
      fun _ => .refl s t⟩

/-! ## Hard limits -/

/-- Soft limits are within hard limits, and these within a bound. -/
def Capped (r : Resource) (bound : UInt64) (s : System) : Prop :=
  ∀ t ∈ s.tasks, (s.rlim t.tgid r).cur ≤ (s.rlim t.tgid r).max ∧ (s.rlim t.tgid r).max ≤ bound

instance (r : Resource) (bound : UInt64) (s : System) : Decidable (Capped r bound s) :=
  inferInstanceAs (Decidable (∀ t ∈ s.tasks, _ ∧ _))

theorem step_capped {r : Resource} {bound : UInt64} {a : Actor} {s s' : System}
    (h : Capped r bound s) (hcap : a.mayRaise = false) (hstep : step a s = some s') :
    Capped r bound s' := by
  rcases step_effect hstep with ⟨me, tsk, hme, htsk, r', new, -, -, hordered, hceiling, rfl⟩ |
    ⟨me, hme, child, hfresh, htasks, hrlim⟩ | ⟨hrlim, htasks⟩
  · intro t ht
    simp only [System.setRlims]
    by_cases hgroup : t.tgid = tsk.tgid
    · rw [hgroup, Function.update_self]
      by_cases hr : r = r'
      · subst hr
        rw [Function.update_self]
        exact ⟨hordered, UInt64.le_trans (hceiling hcap) (h tsk htsk).2⟩
      · rw [Function.update_of_ne hr]
        exact h tsk htsk
    · rw [Function.update_of_ne hgroup]
      exact h t ht
  · intro t ht
    rw [htasks] at ht
    rw [hrlim]
    rcases List.mem_append.mp ht with ht | ht
    · rw [Function.update_of_ne (hfresh.2 t ht).2]
      exact h t ht
    · rw [List.mem_singleton.mp ht, Function.update_self]
      exact h me hme
  · intro t' ht'
    obtain ⟨t, ht, hgroup, -⟩ := htasks t' ht'
    rw [hrlim, hgroup]
    exact h t ht

/-- **Hard limits are a ceiling**: where the soft limits of the start are within the hard ones, then
    in a run without `CAP_SYS_RESOURCE`, whatever the tasks set for themselves and for others, and
    whoever forks, every soft limit is within its hard limit, and every hard limit within the
    highest one of the start. -/
theorem reach_capped {r : Resource} {bound : UInt64} {s s' : System} (h : Capped r bound s)
    (hrun : Reach (restrict (fun a _ => a.mayRaise = false) step) s s') : Capped r bound s' :=
  hrun.invariant h fun _ _ _ hI hstep =>
    step_capped hI (restrict_eq_some hstep).1 (restrict_eq_some hstep).2

/-- Two users with a task each. -/
def twoUsers : System where
  tasks := [member 7 1000, member 8 1001]
  rlim _ r := if r = RLIMIT_NICE then ⟨20, 30⟩ else ⟨8388608, RLIM_INFINITY⟩

/-- One of them tries to reach what the other one has. -/
def intrusion : List Actor :=
  [.prlimit64 8 .plain 7 13 (some ⟨1, 1⟩) true, .setid 8 .user (.setid 1000) (.init false),
    .setid 8 .user (.setreid 1000 1000) (.init false), .fork 7 9,
    .prlimit64 8 .plain 9 13 (some ⟨1, 1⟩) false, .setrlimit 8 .plain 13 ⟨25, 25⟩,
    .setpriority 8 .plain PRIO_USER 0 (-20), .setpriority 8 .plain PRIO_PROCESS 0 (-5)]

theorem reach_capped_intrusion : ∃ s',
    exec (restrict (fun a _ => a.mayRaise = false) step) intrusion twoUsers = some s' ∧
      Capped RLIMIT_NICE 30 s' := by
  have hrun : (exec (restrict (fun a _ => a.mayRaise = false) step) intrusion twoUsers).isSome =
      true := by decide +kernel
  obtain ⟨s', hs'⟩ := Option.isSome_iff_exists.mp hrun
  exact ⟨s', hs', reach_capped (by decide) (reach_of_exec _ hs')⟩

/-! ## Users -/

/-- A task of the user `k`, and of nobody else. -/
def Task.Of (k : UInt32) (t : Task) : Prop := t.uids = .all k

instance (k : UInt32) (t : Task) : Decidable (Task.Of k t) := inferInstanceAs (Decidable (_ = _))

/-- The other tasks do not have the id of the user, and no thread group is shared. -/
structure Separate (k : UInt32) (s : System) : Prop where
  ids : ∀ t ∈ s.tasks, t.uids.Owns k → Task.Of k t
  groups : ∀ t ∈ s.tasks, ∀ u ∈ s.tasks, t.tgid = u.tgid → Task.Of k t → Task.Of k u

theorem Task.Of.owns {k : UInt32} {t : Task} (h : Task.Of k t) : t.uids.Owns k := by
  rw [h]
  exact .inl rfl

theorem idMatch_owns {k : UInt32} {me tsk : Task} (h : idMatch me tsk) (htsk : Task.Of k tsk) :
    me.uids.Owns k := by
  have hid : me.uids.id = tsk.uids.id := h.1.2.2
  rw [htsk] at hid
  exact .inl hid.symm

/-- Without capabilities, and while the user sets no limits. -/
def Quiet (k : UInt32) (a : Actor) (s : System) : Prop :=
  a.privileged = false ∧ ∀ t ∈ s.tasks, Task.Of k t → a.setter ≠ some t.pid

instance (k : UInt32) (a : Actor) (s : System) : Decidable (Quiet k a s) :=
  inferInstanceAs (Decidable (_ ∧ ∀ t ∈ s.tasks, _))

theorem step_separate {k : UInt32} {a : Actor} {s s' : System} (h : Separate k s)
    (hcap : a.privileged = false) (hstep : step a s = some s') : Separate k s' := by
  rcases step_effect hstep with ⟨me, tsk, hme, htsk, r', new, -, -, -, -, rfl⟩ |
    ⟨me, hme, child, hfresh, htasks, -⟩ | ⟨-, htasks⟩
  · exact ⟨h.ids, h.groups⟩
  · have hcases : ∀ t ∈ s'.tasks, t ∈ s.tasks ∨ t.tgid = child ∧ t.uids = me.uids := by
      intro t ht
      rw [htasks] at ht
      refine (List.mem_append.mp ht).imp_right fun ht => ?_
      rw [List.mem_singleton.mp ht]
      exact ⟨rfl, rfl⟩
    refine ⟨fun t ht hown => ?_, fun t ht u hu hgroup hof => ?_⟩
    · rcases hcases t ht with ht | ⟨-, huids⟩
      · exact h.ids t ht hown
      · rw [Task.Of, huids]
        exact h.ids me hme (huids ▸ hown)
    · rcases hcases t ht with ht | ⟨htgid, huids⟩ <;> rcases hcases u hu with hu | ⟨hugid, huids'⟩
      · exact h.groups t ht u hu hgroup hof
      · exact absurd (hgroup.trans hugid) (hfresh.2 t ht).2
      · exact absurd (hgroup.symm.trans htgid) (hfresh.2 u hu).2
      · rw [Task.Of, huids', ← huids]
        exact hof
  · have hback : ∀ t' ∈ s'.tasks, ∀ t ∈ s.tasks, Within t.uids t'.uids → t'.uids.Owns k →
        Task.Of k t := fun t' _ t ht hwithin hown => h.ids t ht (hwithin.owns hown)
    have hforth : ∀ t t' : Task, Within t.uids t'.uids → Task.Of k t → Task.Of k t' := by
      intro t t' hwithin hof
      rw [Task.Of] at hof
      rw [hof] at hwithin
      exact within_all hwithin
    refine ⟨fun t' ht' hown => ?_, fun t' ht' u' hu' hgroup hof => ?_⟩
    · obtain ⟨t, ht, -, hwithin, -⟩ := htasks t' ht'
      exact hforth t t' (hwithin hcap) (hback t' ht' t ht (hwithin hcap) hown)
    · obtain ⟨t, ht, htgid, hwithin, -⟩ := htasks t' ht'
      obtain ⟨u, hu, hugid, hwithin', -⟩ := htasks u' hu'
      have hof' := hback t' ht' t ht (hwithin hcap) hof.owns
      have hsame : t.tgid = u.tgid := by rw [← htgid, ← hugid, hgroup]
      exact hforth u u' (hwithin' hcap) (h.groups t ht u hu hsame hof')

/-- The limits of the user's tasks are limits that they had at the start. -/
def Inherited (k : UInt32) (s₀ s : System) : Prop :=
  ∀ t' ∈ s.tasks, t'.uids.Owns k →
    ∃ t ∈ s₀.tasks, t.uids.Owns k ∧ s.rlim t'.tgid = s₀.rlim t.tgid

theorem step_inherited {k : UInt32} {a : Actor} {s₀ s s' : System} (hsep : Separate k s)
    (h : Inherited k s₀ s) (hquiet : Quiet k a s) (hstep : step a s = some s') :
    Inherited k s₀ s' := by
  obtain ⟨hcap, hset⟩ := hquiet
  rcases step_effect hstep with ⟨me, tsk, hme, htsk, r', new, hsetter, hwho, -, -, rfl⟩ |
    ⟨me, hme, child, hfresh, htasks, hrlim⟩ | ⟨hrlim, htasks⟩
  · intro t ht hown
    -- the caller is not the user's, so the target is not either
    have hme' : ¬ me.uids.Owns k := fun hown => hset me hme (hsep.ids me hme hown) hsetter
    have htsk' : ¬ Task.Of k tsk := by
      intro hof
      rcases hwho hcap with rfl | hmatch
      · exact hme' hof.owns
      · exact hme' (idMatch_owns hmatch hof)
    have hgroup : t.tgid ≠ tsk.tgid := fun hgroup =>
      htsk' (hsep.groups t ht tsk htsk hgroup (hsep.ids t ht hown))
    simp only [System.setRlims, Function.update_of_ne hgroup]
    exact h t ht hown
  · intro t ht hown
    rw [htasks] at ht
    rw [hrlim]
    rcases List.mem_append.mp ht with ht | ht
    · rw [Function.update_of_ne (hfresh.2 t ht).2]
      exact h t ht hown
    · rw [List.mem_singleton.mp ht] at hown ⊢
      rw [Function.update_self]
      exact h me hme hown
  · intro t' ht' hown
    obtain ⟨t, ht, hgroup, hwithin, -⟩ := htasks t' ht'
    rw [hrlim, hgroup]
    exact h t ht ((hwithin hcap).owns hown)

/-- **One user cannot change the limits of another one**: where at the start no other task has the
    id of a user or shares a thread group with a task of the user, then in a run without
    capabilities in which the tasks of the user set no limits, the limits of these tasks, also of
    those that are forked meanwhile, remain the limits they had at the start, whatever all the
    others do. -/
theorem reach_isolated {k : UInt32} {s s' : System} (h : Separate k s)
    (hrun : Reach (restrict (Quiet k) step) s s') : Inherited k s s' := by
  have hinv : Separate k s' ∧ Inherited k s s' := by
    refine hrun.invariant (I := fun u => Separate k u ∧ Inherited k s u)
      ⟨h, fun t ht hown => ⟨t, ht, hown, rfl⟩⟩ ?_
    rintro a u u' ⟨hsep, hinh⟩ hstep
    obtain ⟨hquiet, hstep⟩ := restrict_eq_some hstep
    exact ⟨step_separate hsep hquiet.1 hstep, step_inherited hsep hinh hquiet hstep⟩
  exact hinv.2

theorem reach_isolated_intrusion : ∃ s',
    exec (restrict (Quiet 1000) step) intrusion twoUsers = some s' ∧
      Inherited 1000 twoUsers s' := by
  have hrun : (exec (restrict (Quiet 1000) step) intrusion twoUsers).isSome = true := by
    decide +kernel
  obtain ⟨s', hs'⟩ := Option.isSome_iff_exists.mp hrun
  have hsep : Separate 1000 twoUsers := ⟨by decide, by decide⟩
  exact ⟨s', hs', reach_isolated hsep (reach_of_exec _ hs')⟩

/-! ## Priorities -/

/-- No task has a higher priority than the bound, and none may get one. -/
def Bounded (bound : UInt64) (s : System) : Prop :=
  Capped RLIMIT_NICE bound s ∧ ∀ t ∈ s.tasks, niceToRlimit t.nice ≤ bound.toNat

theorem step_bounded {bound : UInt64} {a : Actor} {s s' : System} (h : Bounded bound s)
    (ha : a.mayRaise = false ∧ a.Plain) (hstep : step a s = some s') : Bounded bound s' := by
  refine ⟨step_capped h.1 ha.1 hstep, ?_⟩
  rcases step_effect hstep with ⟨me, tsk, -, -, r', new, -, -, -, -, rfl⟩ |
    ⟨me, hme, child, -, htasks, -⟩ | ⟨-, htasks⟩
  · exact h.2
  · intro t ht
    rw [htasks] at ht
    rcases List.mem_append.mp ht with ht | ht
    · exact h.2 t ht
    · rw [List.mem_singleton.mp ht]
      exact h.2 me hme
  · intro t' ht'
    obtain ⟨t, ht, -, -, hnice⟩ := htasks t' ht'
    have hold := h.2 t ht
    rcases hnice ha.2 with hle | hle
    · simp only [niceToRlimit] at hold ⊢
      omega
    · obtain ⟨hcur, hmax⟩ := h.1 t ht
      have hbound := UInt64.le_iff_toNat_le.mp (UInt64.le_trans hcur hmax)
      omega

/-- **No priority above `RLIMIT_NICE`**: where the soft limits of the start are within the hard ones,
    then in a run without `CAP_SYS_RESOURCE` and `CAP_SYS_NICE`, whatever limits and priorities the
    tasks set for themselves and for others, no task gets a higher priority than the highest one of
    the start and the highest hard limit of the start. -/
theorem exec_bounded {bound : UInt64} {as : List Actor} {s s' : System} (h : Bounded bound s)
    (has : ∀ a ∈ as, a.mayRaise = false ∧ a.Plain) (hrun : exec step as s = some s') :
    Bounded bound s' :=
  exec_invariant as hrun h fun a ha _ _ hI hstep => step_bounded hI (has a ha) hstep

theorem exec_bounded_intrusion : ∃ s', exec step intrusion twoUsers = some s' ∧
    s'.tasks.map Task.nice = [0, -5, 0] ∧ Bounded 30 s' := by
  have hrun : (exec step intrusion twoUsers).map (fun s' => s'.tasks.map Task.nice) =
      some [0, -5, 0] := by decide +kernel
  obtain ⟨s', hs', hnice⟩ := Option.map_eq_some_iff.mp hrun
  refine ⟨s', hs', hnice, exec_bounded ⟨by decide, by decide⟩ ?_ hs'⟩
  simp [intrusion, Actor.mayRaise, Actor.Plain, Limits.Answers.plain, Priority.Answers.plain]

end UsacSyscalls.Sys.Tasks
