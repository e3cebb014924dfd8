import Mathlib.Data.List.Nodup
import UsacSyscalls.Lib.Run
import UsacSyscalls.Sys.Credentials

/-!
# Process groups and sessions

Reference model of `setpgid`, `setsid`, `getpgid` and `getsid` of `kernel/sys.c` in one pid
namespace.  The processes also fork, start and end threads, execute programs, lose their parent and
end, in any order; that a new pid is not in use as a pid, a group or a session is the kernel's
allocation of pids.

* `reach_grouped` — the invariant of every run; `reach_getsid` is what it means to a caller: a group
  lies within one session.
* `reach_setsid` — a new session is empty, although `setsid` checks the groups only.
* `reach_leader` — the leader of a session stays in its session and its group as long as it lives.
* `reach_settled` — nobody moves a process that has executed a program, but itself.
-/

set_option autoImplicit false

namespace UsacSyscalls.Sys.Sessions

open Lib.Run

/-! ## The processes -/

/-- A thread group. -/
structure Proc where
  /-- The pid of the group leader. -/
  pid : Int
  /-- The pids of the other threads. -/
  threads : List Int
  /-- The thread group of `real_parent`. -/
  parent : Int
  /-- `PF_FORKNOEXEC`. -/
  forkNoExec : Bool
  /-- `signal->leader`. -/
  leader : Bool
  session : Int
  pgrp : Int
  deriving DecidableEq, Repr

abbrev Table := List Proc

def Table.find (t : Table) (pid : Int) : Option Proc := t.find? fun p => p.pid = pid

/-- Change one process. -/
def Table.change (t : Table) (pid : Int) (f : Proc → Proc) : Table :=
  t.map fun p => if p.pid = pid then f p else p

/-- Whether a number is a pid, or still the number of a group or a session. -/
def Table.uses (t : Table) (n : Int) : Prop :=
  ∃ p ∈ t, p.pid = n ∨ n ∈ p.threads ∨ p.pgrp = n ∨ p.session = n

instance (t : Table) (n : Int) : Decidable (t.uses n) := inferInstanceAs (Decidable (∃ p ∈ t, _))

/-! ## The system calls -/

/-- `setpgid` by a thread of `me`; `security` is the answer of `security_task_setpgid`. -/
def setpgid (t : Table) (me : Proc) (pid pgid : Int) (security : Option Errno) : Int × Table :=
  let pid := if pid = 0 then me.pid else pid
  let pgid := if pgid = 0 then pid else pgid
  if pgid < 0 then (EINVAL.ret, t)
  else
    match t.find pid with
    | none =>
      -- the pid of another thread is found too
      if t.any fun p => p.threads.contains pid then (EINVAL.ret, t) else (ESRCH.ret, t)
    | some p =>
      if p.parent = me.pid ∧ p.session ≠ me.session then (EPERM.ret, t)
      else if p.parent = me.pid ∧ p.forkNoExec = false then (EACCES.ret, t)
      else if p.parent ≠ me.pid ∧ p.pid ≠ me.pid then (ESRCH.ret, t)
      else if p.leader then (EPERM.ret, t)
      else if pgid ≠ pid ∧ ((t.find? fun g => g.pgrp = pgid).map Proc.session) ≠ some me.session then
        (EPERM.ret, t)
      else
        match security with
        | some e => (e.ret, t)
        | none => (0, t.change pid fun p => { p with pgrp := pgid })

/-- `setsid` by a thread of `me`. -/
def setsid (t : Table) (me : Proc) : Int × Table :=
  if me.leader then (EPERM.ret, t)
  else if t.any fun p => p.pgrp = me.pid then (EPERM.ret, t)
  else
    (me.pid, t.change me.pid fun p => { p with leader := true, session := me.pid, pgrp := me.pid })

/-- The process of a thread. -/
def Table.ofThread (t : Table) (pid : Int) : Option Proc :=
  t.find? fun p => p.pid = pid || p.threads.contains pid

/-- What `getpgid` and `getsid` share; `security` is the answer of the security modules. -/
def getNumber (number : Proc → Int) (t : Table) (me : Proc) (pid : Int)
    (security : Option Errno) : Int :=
  if pid = 0 then number me
  else
    match t.ofThread pid with
    | none => ESRCH.ret
    | some p =>
      match security with
      | some e => e.ret
      | none => number p

def getpgid := getNumber Proc.pgrp
def getsid := getNumber Proc.session

/-! ## The system -/

inductive Actor where
  | setpgid (caller pid pgid : Int) (security : Option Errno)
  | setsid (caller : Int)
  /-- `cloneParent` makes the child a sibling. -/
  | fork (caller child : Int) (cloneParent : Bool)
  | thread (caller tid : Int)
  | threadExit (caller tid : Int)
  /-- The thread that executes a program goes on alone, under the pid of the group leader. -/
  | exec (caller : Int)
  /-- The parent has ended, and another process takes its children over. -/
  | reparent (pid parent : Int)
  | reap (pid : Int)
  deriving Repr

def Proc.child (p : Proc) (pid : Int) (cloneParent : Bool) : Proc where
  pid := pid
  threads := []
  parent := if cloneParent then p.parent else p.pid
  forkNoExec := true
  leader := false
  session := p.session
  pgrp := p.pgrp

def step : Actor → Table → Option Table
  | .setpgid caller pid pgid security, t =>
    (t.find caller).map fun me => (setpgid t me pid pgid security).2
  | .setsid caller, t => (t.find caller).map fun me => (setsid t me).2
  | .fork caller child cloneParent, t =>
    if 0 < child ∧ ¬ t.uses child then
      (t.find caller).map fun me => t ++ [me.child child cloneParent]
    else none
  | .thread caller tid, t =>
    if 0 < tid ∧ ¬ t.uses tid then
      some (t.change caller fun p => { p with threads := tid :: p.threads })
    else none
  | .threadExit caller tid, t =>
    some (t.change caller fun p => { p with threads := p.threads.filter (· ≠ tid) })
  | .exec caller, t => some (t.change caller fun p => { p with threads := [], forkNoExec := false })
  | .reparent pid parent, t => some (t.change pid fun p => { p with parent := parent })
  | .reap pid, t => some (t.filter fun p => p.pid ≠ pid)

/-- The first process. -/
def boot : Table := [⟨1, [], 0, false, false, 0, 0⟩]

/-! ## What a step can do -/

theorem mem_change {t : Table} {pid : Int} {f : Proc → Proc} {p' : Proc} :
    p' ∈ t.change pid f ↔ ∃ p ∈ t, p' = if p.pid = pid then f p else p := by
  simp only [Table.change, List.mem_map, eq_comm]

theorem mem_of_find {t : Table} {pid : Int} {p : Proc} (h : t.find pid = some p) :
    p ∈ t ∧ p.pid = pid :=
  ⟨List.mem_of_find?_eq_some h, by simpa using List.find?_some h⟩

/-- What identifies a process and its place: its pid, session and group, and whether it leads. -/
def Proc.place (p : Proc) : Int × Bool × Int × Int := (p.pid, p.leader, p.session, p.pgrp)

/-- Either `setpgid` fails and changes nothing, or it moves a process that leads no session, the
    caller itself or a child that has not executed a program, into a group of the session of the
    caller or into a group of its own. -/
theorem setpgid_cases {t : Table} {me : Proc} {pid pgid : Int} {security : Option Errno} :
    (∃ e : Errno, setpgid t me pid pgid security = (e.ret, t)) ∨
      ∃ p ∈ t, ∃ pgid', p.leader = false ∧
        (p.pid = me.pid ∨ p.parent = me.pid ∧ p.session = me.session ∧ p.forkNoExec = true) ∧
        (pgid' = p.pid ∨ ∃ g ∈ t, g.pgrp = pgid' ∧ g.session = me.session) ∧
        setpgid t me pid pgid security = (0, t.change p.pid fun p => { p with pgrp := pgid' }) := by
  unfold setpgid
  generalize (if pid = 0 then me.pid else pid) = pid
  dsimp only
  generalize (if pgid = 0 then pid else pgid) = pgid
  by_cases hneg : pgid < 0
  · exact .inl ⟨EINVAL, if_pos hneg⟩
  rw [if_neg hneg]
  cases hfind : t.find pid with
  | none =>
    dsimp only
    split
    · exact .inl ⟨EINVAL, rfl⟩
    · exact .inl ⟨ESRCH, rfl⟩
  | some p =>
    obtain ⟨hp, rfl⟩ := mem_of_find hfind
    dsimp only
    split_ifs with hsession hexec hself hleader hgroup
    · exact .inl ⟨EPERM, rfl⟩
    · exact .inl ⟨EACCES, rfl⟩
    · exact .inl ⟨ESRCH, rfl⟩
    · exact .inl ⟨EPERM, rfl⟩
    · exact .inl ⟨EPERM, rfl⟩
    · cases security with
      | some e => exact .inl ⟨e, rfl⟩
      | none =>
        refine .inr ⟨p, hp, pgid, by simpa using hleader, ?_, ?_, rfl⟩
        · by_cases hparent : p.parent = me.pid
          · simp only [hparent, true_and, ne_eq, not_not] at hsession hexec
            exact .inr ⟨hparent, hsession, by simpa using hexec⟩
          · exact .inl (by simpa [hparent] using hself)
        · by_cases hown : pgid = p.pid
          · exact .inl hown
          · simp only [ne_eq, hown, not_false_eq_true, true_and, not_not] at hgroup
            obtain ⟨g, hg, hsame⟩ := Option.map_eq_some_iff.mp hgroup
            exact .inr ⟨g, List.mem_of_find?_eq_some hg, by simpa using List.find?_some hg, hsame⟩

/-- Either `setsid` fails and changes nothing, or no group has the number of the new session. -/
theorem setsid_cases {t : Table} {me : Proc} :
    setsid t me = (EPERM.ret, t) ∨
      (me.leader = false ∧ (∀ q ∈ t, q.pgrp ≠ me.pid) ∧ setsid t me = (me.pid,
        t.change me.pid fun p => { p with leader := true, session := me.pid, pgrp := me.pid })) := by
  unfold setsid
  split_ifs with hleader hgroup
  · exact .inl rfl
  · exact .inl rfl
  · refine .inr ⟨by simpa using hleader, ?_, rfl⟩
    simpa using hgroup

/-- A step moves a process into another group of its session, starts a session, forks, or leaves
    every process it keeps in its place. -/
inductive Effect (t t' : Table) : Prop where
  | moved (p : Proc) (hp : p ∈ t) (pgid : Int) (hleader : p.leader = false)
      (hgroup : pgid = p.pid ∨ ∃ g ∈ t, g.pgrp = pgid ∧ g.session = p.session)
      (h : t' = t.change p.pid fun p => { p with pgrp := pgid })
  | session (p : Proc) (hp : p ∈ t) (hleader : p.leader = false) (hgroup : ∀ q ∈ t, q.pgrp ≠ p.pid)
      (h : t' = t.change p.pid fun q => { q with leader := true, session := p.pid, pgrp := p.pid })
  | forked (p : Proc) (hp : p ∈ t) (child : Int) (cloneParent : Bool) (hfresh : ¬ t.uses child)
      (h : t' = t ++ [p.child child cloneParent])
  | kept (hpids : (t'.map Proc.pid).Sublist (t.map Proc.pid))
      (h : ∀ p' ∈ t', ∃ p ∈ t, p'.place = p.place)

theorem Effect.refl (t : Table) : Effect t t := .kept (List.Sublist.refl _) fun p hp => ⟨p, hp, rfl⟩

theorem map_pid_change {t : Table} {pid : Int} {f : Proc → Proc} (hf : ∀ p, (f p).pid = p.pid) :
    (t.change pid f).map Proc.pid = t.map Proc.pid := by
  simp only [Table.change, List.map_map]
  refine List.map_congr_left fun p _ => ?_
  simp only [Function.comp_apply]
  split
  · exact hf p
  · rfl

/-- Changing nothing of a place. -/
theorem Effect.of_place {t : Table} {pid : Int} {f : Proc → Proc}
    (hf : ∀ p, (f p).place = p.place) : Effect t (t.change pid f) := by
  refine .kept ?_ fun p' hp' => ?_
  · have hpids : (t.change pid f).map Proc.pid = t.map Proc.pid :=
      map_pid_change fun p => congrArg Prod.fst (hf p)
    rw [hpids]
  · obtain ⟨p, hp, rfl⟩ := mem_change.mp hp'
    refine ⟨p, hp, ?_⟩
    split
    · exact hf p
    · rfl

/-- `setpgid` and `setsid` find their caller, and every process they move, by its pid. -/
theorem step_effect {t t' : Table} {a : Actor} (hsession : ∀ p ∈ t, ∀ q ∈ t, p.pid = q.pid → p = q)
    (h : step a t = some t') : Effect t t' := by
  cases a with
  | setpgid caller pid pgid security =>
    obtain ⟨me, hme, rfl⟩ := Option.map_eq_some_iff.mp h
    have hmem := (mem_of_find hme).1
    rcases @setpgid_cases t me pid pgid security with
      ⟨e, he⟩ | ⟨p, hp, pgid', hleader, hwho, hgroup, hok⟩
    · rw [he]; exact .refl t
    · rw [hok]
      have hsame : p.session = me.session := by
        rcases hwho with hself | ⟨-, hsame, -⟩
        · rw [hsession p hp me hmem hself]
        · exact hsame
      exact .moved p hp pgid' hleader (hsame ▸ hgroup) rfl
  | setsid caller =>
    obtain ⟨me, hme, rfl⟩ := Option.map_eq_some_iff.mp h
    rcases @setsid_cases t me with he | ⟨hleader, hgroup, hok⟩
    · rw [he]; exact .refl t
    · rw [hok]; exact .session me (mem_of_find hme).1 hleader hgroup rfl
  | fork caller child cloneParent =>
    simp only [step] at h
    split at h
    · rename_i hfresh
      obtain ⟨me, hme, rfl⟩ := Option.map_eq_some_iff.mp h
      exact .forked me (mem_of_find hme).1 child cloneParent hfresh.2 rfl
    · cases h
  | thread caller tid =>
    simp only [step] at h
    split at h
    · cases h; exact .of_place fun _ => rfl
    · cases h
  | threadExit caller tid => cases h; exact .of_place fun _ => rfl
  | exec caller => cases h; exact .of_place fun _ => rfl
  | reparent pid parent => cases h; exact .of_place fun _ => rfl
  | reap pid =>
    cases h
    exact .kept (List.filter_sublist.map _) fun p' hp' => ⟨p', List.mem_of_mem_filter hp', rfl⟩

/-! ## Groups lie within sessions -/

/-- The invariant. -/
structure Grouped (t : Table) : Prop where
  pids : (t.map Proc.pid).Nodup
  /-- A group lies within one session. -/
  session : ∀ p ∈ t, ∀ q ∈ t, p.pgrp = q.pgrp → p.session = q.session
  /-- A leader is in the session and in the group that have its pid. -/
  leader : ∀ p ∈ t, p.leader = true → p.session = p.pid ∧ p.pgrp = p.pid
  /-- The process whose pid a session has is its leader. -/
  own : ∀ p ∈ t, ∀ q ∈ t, q.session = p.pid → p.leader = true
  /-- The process whose pid a group has is in the session of the group. -/
  home : ∀ p ∈ t, ∀ q ∈ t, q.pgrp = p.pid → q.session = p.session

theorem Grouped.eq_of_pid {t : Table} (h : Grouped t) {p q : Proc} (hp : p ∈ t) (hq : q ∈ t)
    (hpid : p.pid = q.pid) : p = q :=
  List.inj_on_of_nodup_map h.pids hp hq hpid

theorem Grouped.change_pids {t : Table} (h : Grouped t) {pid : Int} {f : Proc → Proc}
    (hf : ∀ p, (f p).pid = p.pid) : ((t.change pid f).map Proc.pid).Nodup := by
  rw [map_pid_change hf]
  exact h.pids

theorem boot_grouped : Grouped boot := by
  constructor <;> simp [boot]

/-- A group's number is used by the processes in it, a session's too. -/
theorem ne_of_fresh {t : Table} {n : Int} (h : ¬ t.uses n) {p : Proc} (hp : p ∈ t) :
    p.pid ≠ n ∧ p.pgrp ≠ n ∧ p.session ≠ n :=
  ⟨fun he => h ⟨p, hp, .inl he⟩, fun he => h ⟨p, hp, .inr (.inr (.inl he))⟩,
    fun he => h ⟨p, hp, .inr (.inr (.inr he))⟩⟩

/-- The session a process moves within is the session of the group it moves to. -/
theorem Grouped.moved_session {t : Table} (h : Grouped t) {p q : Proc} (hp : p ∈ t) (hq : q ∈ t)
    {pgid : Int} (hgroup : pgid = p.pid ∨ ∃ g ∈ t, g.pgrp = pgid ∧ g.session = p.session)
    (hpgrp : q.pgrp = pgid) : q.session = p.session := by
  rcases hgroup with rfl | ⟨g, hg, rfl, hsame⟩
  · exact h.home p hp q hq hpgrp
  · rw [h.session q hq g hg hpgrp, hsame]

theorem Grouped.moved {t : Table} (h : Grouped t) {p : Proc} (hp : p ∈ t) {pgid : Int}
    (hleader : p.leader = false)
    (hgroup : pgid = p.pid ∨ ∃ g ∈ t, g.pgrp = pgid ∧ g.session = p.session) :
    Grouped (t.change p.pid fun p => { p with pgrp := pgid }) := by
  have hcases : ∀ q' ∈ t.change p.pid fun p => { p with pgrp := pgid },
      ∃ q ∈ t, q'.pid = q.pid ∧ q'.session = q.session ∧ q'.leader = q.leader ∧
        (q'.pgrp = q.pgrp ∨ q = p ∧ q'.pgrp = pgid) := by
    intro q' hq'
    obtain ⟨q, hq, rfl⟩ := mem_change.mp hq'
    refine ⟨q, hq, ?_⟩
    split
    · exact ⟨rfl, rfl, rfl, .inr ⟨h.eq_of_pid hq hp ‹_›, rfl⟩⟩
    · exact ⟨rfl, rfl, rfl, .inl rfl⟩
  refine ⟨?_, ?_, ?_, ?_, ?_⟩
  · exact h.change_pids fun _ => rfl
  · intro a' ha' b' hb' hpgrp
    obtain ⟨a, ha, -, hsa, -, hga⟩ := hcases a' ha'
    obtain ⟨b, hb, -, hsb, -, hgb⟩ := hcases b' hb'
    rw [hsa, hsb]
    rcases hga with hga | ⟨rfl, hga⟩ <;> rcases hgb with hgb | ⟨rfl, hgb⟩
    · exact h.session a ha b hb (by rw [← hga, ← hgb, hpgrp])
    · exact h.moved_session hp ha hgroup (by rw [← hga, hpgrp, hgb])
    · exact (h.moved_session hp hb hgroup (by rw [← hgb, ← hpgrp, hga])).symm
    · rfl
  · intro a' ha' hlead
    obtain ⟨a, ha, hpid, hs, hl, hg⟩ := hcases a' ha'
    rw [hl] at hlead
    rcases hg with hg | ⟨rfl, -⟩
    · rw [hpid, hs, hg]
      exact h.leader a ha hlead
    · rw [hleader] at hlead
      cases hlead
  · intro a' ha' b' hb' hown
    obtain ⟨a, ha, hpid, -, hl, -⟩ := hcases a' ha'
    obtain ⟨b, hb, -, hs, -, -⟩ := hcases b' hb'
    rw [hl]
    exact h.own a ha b hb (by rw [← hs, ← hpid, hown])
  · intro a' ha' b' hb' hhome
    obtain ⟨a, ha, hpid, hsa, -, -⟩ := hcases a' ha'
    obtain ⟨b, hb, -, hsb, -, hg⟩ := hcases b' hb'
    rw [hsa, hsb]
    rcases hg with hg | ⟨rfl, hg⟩
    · exact h.home a ha b hb (by rw [← hg, ← hpid, hhome])
    · -- the group it moves to has the pid of `a`
      have hpgid : pgid = a.pid := by rw [← hg, ← hpid, hhome]
      rcases hgroup with rfl | ⟨g, hg', rfl, hsame⟩
      · rw [h.eq_of_pid hb ha hpgid]
      · rw [← hsame]
        exact h.home a ha g hg' hpgid

/-- Nobody is in a session before it starts, although only the groups are checked. -/
theorem Grouped.no_session {t : Table} (h : Grouped t) {p q : Proc} (hp : p ∈ t) (hq : q ∈ t)
    (hleader : p.leader = false) : q.session ≠ p.pid := by
  intro hown
  rw [h.own p hp q hq hown] at hleader
  cases hleader

theorem Grouped.started {t : Table} (h : Grouped t) {p : Proc} (hgroup : ∀ q ∈ t, q.pgrp ≠ p.pid) :
    Grouped (t.change p.pid fun q => { q with leader := true, session := p.pid, pgrp := p.pid }) := by
  have hcases : ∀ q' ∈ t.change p.pid fun q =>
      { q with leader := true, session := p.pid, pgrp := p.pid },
      q'.pid = p.pid ∧ q'.leader = true ∧ q'.session = p.pid ∧ q'.pgrp = p.pid ∨
        q' ∈ t ∧ q'.pid ≠ p.pid := by
    intro q' hq'
    obtain ⟨q, hq, rfl⟩ := mem_change.mp hq'
    split
    · exact .inl ⟨‹_›, rfl, rfl, rfl⟩
    · exact .inr ⟨hq, ‹_›⟩
  refine ⟨?_, ?_, ?_, ?_, ?_⟩
  · exact h.change_pids fun _ => rfl
  · intro a ha b hb hpgrp
    rcases hcases a ha with ⟨-, -, hsa, hga⟩ | ⟨ha, -⟩ <;>
      rcases hcases b hb with ⟨-, -, hsb, hgb⟩ | ⟨hb, -⟩
    · rw [hsa, hsb]
    · exact absurd (hpgrp.symm.trans hga) (hgroup b hb)
    · exact absurd (hpgrp.trans hgb) (hgroup a ha)
    · exact h.session a ha b hb hpgrp
  · intro a ha hlead
    rcases hcases a ha with ⟨hpid, -, hs, hg⟩ | ⟨ha, -⟩
    · rw [hpid, hs, hg]
      exact ⟨rfl, rfl⟩
    · exact h.leader a ha hlead
  · intro a ha b hb hown
    rcases hcases a ha with ⟨-, hl, -, -⟩ | ⟨ha, hne⟩
    · exact hl
    · rcases hcases b hb with ⟨-, -, hs, -⟩ | ⟨hb, -⟩
      · exact absurd (hown.symm.trans hs) hne
      · exact h.own a ha b hb hown
  · intro a ha b hb hhome
    rcases hcases a ha with ⟨hpid, -, hsa, -⟩ | ⟨ha, hne⟩ <;>
      rcases hcases b hb with ⟨-, -, hsb, hgb⟩ | ⟨hb, -⟩
    · rw [hsa, hsb]
    · exact absurd (hhome.trans hpid) (hgroup b hb)
    · exact absurd (hhome.symm.trans hgb) hne
    · exact h.home a ha b hb hhome

theorem Grouped.forked {t : Table} (h : Grouped t) {p : Proc} (hp : p ∈ t) {child : Int}
    (cloneParent : Bool) (hfresh : ¬ t.uses child) :
    Grouped (t ++ [p.child child cloneParent]) := by
  have hcases : ∀ q ∈ t ++ [p.child child cloneParent],
      q ∈ t ∨ q.pid = child ∧ q.leader = false ∧ q.session = p.session ∧ q.pgrp = p.pgrp := by
    intro q hq
    rcases List.mem_append.mp hq with hq | hq
    · exact .inl hq
    · rw [List.mem_singleton.mp hq]
      exact .inr ⟨rfl, rfl, rfl, rfl⟩
  refine ⟨?_, ?_, ?_, ?_, ?_⟩
  · rw [List.map_append, List.nodup_append]
    refine ⟨h.pids, List.nodup_singleton _, ?_⟩
    rintro a ha b hb rfl
    obtain ⟨q, hq, rfl⟩ := List.mem_map.mp ha
    exact (ne_of_fresh hfresh hq).1 (by simpa [Proc.child] using hb)
  · intro a ha b hb hpgrp
    rcases hcases a ha with ha | ⟨-, -, hsa, hga⟩ <;> rcases hcases b hb with hb | ⟨-, -, hsb, hgb⟩
    · exact h.session a ha b hb hpgrp
    · rw [hsb]
      exact h.session a ha p hp (hpgrp.trans hgb)
    · rw [hsa]
      exact h.session p hp b hb (hga.symm.trans hpgrp)
    · rw [hsa, hsb]
  · intro a ha hlead
    rcases hcases a ha with ha | ⟨-, hl, -, -⟩
    · exact h.leader a ha hlead
    · rw [hl] at hlead
      cases hlead
  · intro a ha b hb hown
    -- a session in which somebody is has not the number of the child
    have hold : ∃ b₀ ∈ t, b.session = b₀.session := by
      rcases hcases b hb with hb | ⟨-, -, hs, -⟩
      · exact ⟨b, hb, rfl⟩
      · exact ⟨p, hp, hs⟩
    obtain ⟨b₀, hb₀, hs⟩ := hold
    rcases hcases a ha with ha | ⟨hpid, -, -, -⟩
    · exact h.own a ha b₀ hb₀ (hs.symm.trans hown)
    · exact absurd (hs.symm.trans (hown.trans hpid)) (ne_of_fresh hfresh hb₀).2.2
  · intro a ha b hb hhome
    have hold : ∃ b₀ ∈ t, b.pgrp = b₀.pgrp ∧ b.session = b₀.session := by
      rcases hcases b hb with hb | ⟨-, -, hs, hg⟩
      · exact ⟨b, hb, rfl, rfl⟩
      · exact ⟨p, hp, hg, hs⟩
    obtain ⟨b₀, hb₀, hg, hs⟩ := hold
    rcases hcases a ha with ha | ⟨hpid, -, -, -⟩
    · rw [hs]
      exact h.home a ha b₀ hb₀ (hg.symm.trans hhome)
    · exact absurd (hg.symm.trans (hhome.trans hpid)) (ne_of_fresh hfresh hb₀).2.1

theorem Grouped.kept {t t' : Table} (h : Grouped t)
    (hpids : (t'.map Proc.pid).Sublist (t.map Proc.pid))
    (hplace : ∀ p' ∈ t', ∃ p ∈ t, p'.place = p.place) : Grouped t' := by
  have hcases : ∀ p' ∈ t', ∃ p ∈ t, p'.pid = p.pid ∧ p'.leader = p.leader ∧
      p'.session = p.session ∧ p'.pgrp = p.pgrp := by
    intro p' hp'
    obtain ⟨p, hp, he⟩ := hplace p' hp'
    simp only [Proc.place, Prod.mk.injEq] at he
    exact ⟨p, hp, he⟩
  refine ⟨h.pids.sublist hpids, ?_, ?_, ?_, ?_⟩
  · intro a' ha' b' hb' hpgrp
    obtain ⟨a, ha, -, -, hsa, hga⟩ := hcases a' ha'
    obtain ⟨b, hb, -, -, hsb, hgb⟩ := hcases b' hb'
    rw [hsa, hsb]
    exact h.session a ha b hb (by rw [← hga, ← hgb, hpgrp])
  · intro a' ha' hlead
    obtain ⟨a, ha, hpid, hl, hs, hg⟩ := hcases a' ha'
    rw [hpid, hs, hg]
    exact h.leader a ha (hl ▸ hlead)
  · intro a' ha' b' hb' hown
    obtain ⟨a, ha, hpid, hl, -, -⟩ := hcases a' ha'
    obtain ⟨b, hb, -, -, hs, -⟩ := hcases b' hb'
    rw [hl]
    exact h.own a ha b hb (by rw [← hs, ← hpid, hown])
  · intro a' ha' b' hb' hhome
    obtain ⟨a, ha, hpid, -, hsa, -⟩ := hcases a' ha'
    obtain ⟨b, hb, -, -, hsb, hg⟩ := hcases b' hb'
    rw [hsa, hsb]
    exact h.home a ha b hb (by rw [← hg, ← hpid, hhome])

theorem step_grouped {t t' : Table} {a : Actor} (h : Grouped t) (hstep : step a t = some t') :
    Grouped t' := by
  rcases step_effect (fun p hp q hq => h.eq_of_pid hp hq) hstep with
    ⟨p, hp, pgid, hleader, hgroup, rfl⟩ | ⟨p, hp, hleader, hgroup, rfl⟩ |
    ⟨p, hp, child, cloneParent, hfresh, rfl⟩ | ⟨hpids, hplace⟩
  · exact h.moved hp hleader hgroup
  · exact h.started hgroup
  · exact h.forked hp cloneParent hfresh
  · exact h.kept hpids hplace

theorem reach_grouped {t : Table} (h : Reach step boot t) : Grouped t :=
  h.invariant boot_grouped fun _ _ _ => step_grouped

/-! ## What the callers see -/

/-- A shell is started: it has a session, and two jobs, one of them with a second process that has
    a thread. -/
def shell : List Actor :=
  [.fork 1 2 false, .exec 2, .setsid 2, .fork 2 3 false, .setpgid 2 3 0 none, .exec 3,
    .fork 2 4 false, .setpgid 4 0 3 none, .thread 4 5, .fork 2 6 false, .setpgid 6 0 0 none,
    .fork 6 7 false]

/-- The processes then. -/
def jobs : Table := (exec step shell boot).getD []

theorem reach_jobs : Reach step boot jobs :=
  have hrun : exec step shell boot = some jobs := by decide +kernel
  reach_of_exec _ hrun

/-- A number that `getpgid` or `getsid` answers is one of the process of the pid. -/
theorem getNumber_nonneg {number : Proc → Int} {t : Table} {me : Proc} (hme : me ∈ t) {pid : Int}
    {security : Option Errno} (h : 0 ≤ getNumber number t me pid security) :
    ∃ p ∈ t, getNumber number t me pid security = number p ∧
      ∀ number', getNumber number' t me pid none = number' p := by
  unfold getNumber at h ⊢
  by_cases hpid : pid = 0
  · refine ⟨me, hme, ?_⟩
    simp only [hpid, if_true, implies_true, and_self]
  · simp only [hpid, if_false] at h ⊢
    cases hfind : t.ofThread pid with
    | none =>
      rw [hfind] at h
      exact absurd ESRCH.ret_neg (Int.not_lt.mpr h)
    | some p =>
      refine ⟨p, List.mem_of_find?_eq_some hfind, ?_⟩
      cases security with
      | none => exact ⟨rfl, fun _ => rfl⟩
      | some e =>
        simp only [hfind] at h
        exact absurd e.ret_neg (Int.not_lt.mpr h)

/-- **A group lies within one session**, in every state a system can come to: two pids for which
    `getpgid` answers the same group are in the same session according to `getsid`, whoever asks
    and whether the pids are those of processes or of threads. -/
theorem reach_getsid {t : Table} (h : Reach step boot t) {me : Proc} (hme : me ∈ t) {a b : Int}
    {securityA securityB : Option Errno} (ha : 0 ≤ getpgid t me a securityA)
    (hsame : getpgid t me a securityA = getpgid t me b securityB) :
    getsid t me a none = getsid t me b none := by
  have hb : 0 ≤ getpgid t me b securityB := hsame ▸ ha
  obtain ⟨p, hp, hpgrp, hpsid⟩ := getNumber_nonneg hme ha
  obtain ⟨q, hq, hqgrp, hqsid⟩ := getNumber_nonneg hme hb
  have hgroup : p.pgrp = q.pgrp := hpgrp.symm.trans (hsame.trans hqgrp)
  calc getsid t me a none = p.session := hpsid Proc.session
    _ = q.session := (reach_grouped h).session p hp q hq hgroup
    _ = getsid t me b none := (hqsid Proc.session).symm

/-- The first job of the shell, and the thread of its second process. -/
theorem reach_getsid_jobs : ∃ me ∈ jobs, getsid jobs me 3 none = getsid jobs me 5 none := by
  obtain ⟨me, hme, h3, h5⟩ : ∃ me ∈ jobs, 0 ≤ getpgid jobs me 3 none ∧
      getpgid jobs me 3 none = getpgid jobs me 5 none := by decide +kernel
  exact ⟨me, hme, reach_getsid reach_jobs hme h3 h5⟩

/-- **A new session is empty**: when `setsid` succeeds, its caller is the only process of the new
    session and of the new group, although only the groups are checked for the number. -/
theorem reach_setsid {t : Table} (h : Reach step boot t) {me : Proc} (hme : me ∈ t)
    (hok : 0 ≤ (setsid t me).1) {q : Proc} (hq : q ∈ (setsid t me).2) :
    q.session = me.pid ∨ q.pgrp = me.pid ↔ q.pid = me.pid := by
  rcases @setsid_cases t me with he | ⟨hleader, hgroup, hset⟩
  · rw [he] at hok
    exact absurd EPERM.ret_neg (Int.not_lt.mpr hok)
  · rw [hset] at hq
    obtain ⟨p, hp, rfl⟩ := mem_change.mp hq
    split
    · exact ⟨fun _ => ‹_›, fun _ => .inl rfl⟩
    · refine ⟨?_, fun hpid => absurd hpid ‹_›⟩
      rintro (hsession | hpgrp)
      · exact absurd hsession ((reach_grouped h).no_session hme hp hleader)
      · exact absurd hpgrp (hgroup p hp)

/-- The second process of the first job starts a session of its own. -/
theorem reach_setsid_jobs : ∃ me ∈ jobs, me.pid = 4 ∧
    ∀ q ∈ (setsid jobs me).2, q.session = me.pid ∨ q.pgrp = me.pid ↔ q.pid = me.pid := by
  obtain ⟨me, hme, hpid, hok⟩ : ∃ me ∈ jobs, me.pid = 4 ∧ 0 ≤ (setsid jobs me).1 := by
    decide +kernel
  exact ⟨me, hme, hpid, fun q hq => reach_setsid reach_jobs hme hok hq⟩

/-! ## Processes that stay where they are -/

/-- The move that ends a process. -/
def Actor.ends (pid : Int) : Actor → Bool
  | .reap n => n = pid
  | _ => false

/-- The calls by which a process moves itself, or others. -/
def Actor.isMove (pid : Int) : Actor → Bool
  | .setpgid caller _ _ _ => caller = pid
  | .setsid caller => caller = pid
  | _ => false

/-- A process keeps its place, and what it executed stays executed. -/
def Stays (t' : Table) (p : Proc) : Prop :=
  ∃ p' ∈ t', p'.place = p.place ∧ (p.forkNoExec = false → p'.forkNoExec = false)

theorem stays_of_ne {t : Table} {p : Proc} (hp : p ∈ t) {pid : Int} {f : Proc → Proc}
    (hne : p.pid ≠ pid) : Stays (t.change pid f) p :=
  ⟨p, mem_change.mpr ⟨p, hp, (if_neg hne).symm⟩, rfl, id⟩

theorem stays_of_place {t : Table} {p : Proc} (hp : p ∈ t) {pid : Int} {f : Proc → Proc}
    (hf : ∀ p, (f p).place = p.place ∧ (p.forkNoExec = false → (f p).forkNoExec = false)) :
    Stays (t.change pid f) p := by
  refine ⟨_, mem_change.mpr ⟨p, hp, rfl⟩, ?_⟩
  split
  · exact hf p
  · exact ⟨rfl, id⟩

/-- A process stays in its place in a step that does not end it, unless it leads no session and is
    moved: by itself, or by its parent before it executes a program. -/
theorem step_stays {t t' : Table} {a : Actor} (h : Grouped t) {p : Proc} (hp : p ∈ t)
    (hend : a.ends p.pid = false) (hstep : step a t = some t') :
    Stays t' p ∨ p.leader = false ∧ (a.isMove p.pid = true ∨ p.forkNoExec = true) := by
  cases a with
  | setpgid caller pid pgid security =>
    obtain ⟨me, hme, rfl⟩ := Option.map_eq_some_iff.mp hstep
    obtain ⟨-, rfl⟩ := mem_of_find hme
    rcases @setpgid_cases t me pid pgid security with
      ⟨e, he⟩ | ⟨q, hq, pgid', hleader, hwho, -, hok⟩
    · rw [he]; exact .inl ⟨p, hp, rfl, id⟩
    · rw [hok]
      by_cases hpid : p.pid = q.pid
      · obtain rfl := h.eq_of_pid hp hq hpid
        refine .inr ⟨hleader, ?_⟩
        rcases hwho with hself | ⟨-, -, hexec⟩
        · exact .inl (decide_eq_true hself.symm)
        · exact .inr hexec
      · exact .inl (stays_of_ne hp hpid)
  | setsid caller =>
    obtain ⟨me, hme, rfl⟩ := Option.map_eq_some_iff.mp hstep
    obtain ⟨hmem, rfl⟩ := mem_of_find hme
    rcases @setsid_cases t me with he | ⟨hleader, -, hok⟩
    · rw [he]; exact .inl ⟨p, hp, rfl, id⟩
    · rw [hok]
      by_cases hpid : p.pid = me.pid
      · obtain rfl := h.eq_of_pid hp hmem hpid
        exact .inr ⟨hleader, .inl (decide_eq_true rfl)⟩
      · exact .inl (stays_of_ne hp hpid)
  | fork caller child cloneParent =>
    simp only [step] at hstep
    split at hstep
    · obtain ⟨me, -, rfl⟩ := Option.map_eq_some_iff.mp hstep
      exact .inl ⟨p, List.mem_append_left _ hp, rfl, id⟩
    · cases hstep
  | thread caller tid =>
    simp only [step] at hstep
    split at hstep
    · cases hstep; exact .inl (stays_of_place hp fun _ => ⟨rfl, id⟩)
    · cases hstep
  | threadExit caller tid => cases hstep; exact .inl (stays_of_place hp fun _ => ⟨rfl, id⟩)
  | exec caller => cases hstep; exact .inl (stays_of_place hp fun _ => ⟨rfl, fun _ => rfl⟩)
  | reparent pid parent => cases hstep; exact .inl (stays_of_place hp fun _ => ⟨rfl, id⟩)
  | reap pid =>
    cases hstep
    have hne : p.pid ≠ pid := fun he => by simp [Actor.ends, he] at hend
    exact .inl ⟨p, List.mem_filter.mpr ⟨hp, decide_eq_true hne⟩, rfl, id⟩

/-- The induction over a run: a process that nothing moves keeps its place. -/
theorem reach_stays {ok : Actor → Table → Prop} [∀ a t, Decidable (ok a t)] {t t' : Table}
    (h : Grouped t) {p : Proc} (hp : p ∈ t) (hend : ∀ a t, ok a t → a.ends p.pid = false)
    (hfixed : ∀ a t (p' : Proc), ok a t → p'.place = p.place →
      (p.forkNoExec = false → p'.forkNoExec = false) →
        ¬ (p'.leader = false ∧ (a.isMove p'.pid = true ∨ p'.forkNoExec = true)))
    (hrun : Reach (restrict ok step) t t') : Stays t' p := by
  have hinv : Grouped t' ∧ Stays t' p := by
    refine hrun.invariant (I := fun t' => Grouped t' ∧ Stays t' p) ⟨h, p, hp, rfl, id⟩ ?_
    rintro a u u' ⟨hu, q, hq, hplace, hexec⟩ hstep
    obtain ⟨hok, hstep⟩ := restrict_eq_some hstep
    have hpid : q.pid = p.pid := congrArg Prod.fst hplace
    refine ⟨step_grouped hu hstep, ?_⟩
    rcases step_stays hu hq (hpid ▸ hend a u hok) hstep with ⟨q', hq', hplace', hexec'⟩ | hmove
    · exact ⟨q', hq', hplace'.trans hplace, fun hp => hexec' (hexec hp)⟩
    · exact absurd hmove (hfixed a u q hok hplace hexec)
  exact hinv.2

/-- Calls that try to move the shell and its first job; the second process of that job leaves, and
    the pid of its thread is given to another process. -/
def meddling : List Actor :=
  [.setpgid 1 2 0 none, .setpgid 2 3 6 none, .setpgid 6 3 6 none, .fork 3 8 true, .reparent 3 1,
    .setsid 2, .setpgid 2 0 3 none, .setsid 4, .setpgid 1 3 0 none, .threadExit 4 5,
    .fork 6 5 false, .setpgid 5 3 0 none, .reap 6]

/-- **The leader of a session stays**: as long as it lives, whatever it and the other processes
    call, it leads its session and is in the group that has its pid. -/
theorem reach_leader {t t' : Table} (h : Reach step boot t) {p : Proc} (hp : p ∈ t)
    (hleader : p.leader = true)
    (hrun : Reach (restrict (fun a _ => a.ends p.pid = false) step) t t') :
    ∃ p' ∈ t', p'.pid = p.pid ∧ p'.leader = true ∧ p'.session = p.pid ∧ p'.pgrp = p.pid := by
  obtain ⟨p', hp', hplace, -⟩ := reach_stays (reach_grouped h) hp (fun _ _ hok => hok)
    (fun a t q _ hplace _ hmove => by
      have hq : q.leader = p.leader := congrArg (fun x => x.2.1) hplace
      rw [hq, hleader] at hmove
      cases hmove.1) hrun
  obtain ⟨hsession, hpgrp⟩ := (reach_grouped h).leader p hp hleader
  simp only [Proc.place, Prod.mk.injEq] at hplace
  obtain ⟨hpid, hl, hs, hg⟩ := hplace
  exact ⟨p', hp', hpid, hl.trans hleader, hs.trans hsession, hg.trans hpgrp⟩

/-- The shell of the example. -/
theorem reach_leader_jobs : ∃ t', exec step meddling jobs = some t' ∧
    ∃ p' ∈ t', p'.pid = 2 ∧ p'.leader = true ∧ p'.session = 2 ∧ p'.pgrp = 2 := by
  obtain ⟨p, hp, hpid, hleader⟩ : ∃ p ∈ jobs, p.pid = 2 ∧ p.leader = true := by decide +kernel
  obtain ⟨t', ht', hrun⟩ : ∃ t', exec step meddling jobs = some t' ∧
      exec (restrict (fun a _ => a.ends p.pid = false) step) meddling jobs = some t' := by
    rw [hpid]
    exact ⟨((exec step meddling jobs).getD []), by decide +kernel, by decide +kernel⟩
  refine ⟨t', ht', ?_⟩
  have hstays := reach_leader reach_jobs hp hleader (reach_of_exec _ hrun)
  rwa [hpid] at hstays

/-- **Nobody moves a process that has executed a program**: as long as it lives and does not call
    `setpgid` or `setsid` itself, it stays in its session and its group. -/
theorem reach_settled {t t' : Table} (h : Reach step boot t) {p : Proc} (hp : p ∈ t)
    (hexec : p.forkNoExec = false)
    (hrun : Reach (restrict (fun a _ => a.ends p.pid = false ∧ a.isMove p.pid = false) step) t t') :
    ∃ p' ∈ t', p'.pid = p.pid ∧ p'.session = p.session ∧ p'.pgrp = p.pgrp := by
  obtain ⟨p', hp', hplace, -⟩ := reach_stays (reach_grouped h) hp (fun _ _ hok => hok.1)
    (fun a t q hok hplace hq hmove => by
      have hpid : q.pid = p.pid := congrArg Prod.fst hplace
      rcases hmove.2 with hself | hq'
      · rw [hpid, hok.2] at hself
        cases hself
      · rw [hq hexec] at hq'
        cases hq') hrun
  simp only [Proc.place, Prod.mk.injEq] at hplace
  obtain ⟨hpid, -, hs, hg⟩ := hplace
  exact ⟨p', hp', hpid, hs, hg⟩

/-- The first job of the example. -/
theorem reach_settled_jobs : ∃ t', exec step meddling jobs = some t' ∧
    ∃ p' ∈ t', p'.pid = 3 ∧ p'.session = 2 ∧ p'.pgrp = 3 := by
  obtain ⟨p, hp, hpid, hexec, hsession, hpgrp⟩ : ∃ p ∈ jobs, p.pid = 3 ∧ p.forkNoExec = false ∧
      p.session = 2 ∧ p.pgrp = 3 := by decide +kernel
  obtain ⟨t', ht', hrun⟩ : ∃ t', exec step meddling jobs = some t' ∧
      exec (restrict (fun a _ => a.ends p.pid = false ∧ a.isMove p.pid = false) step) meddling
        jobs = some t' := by
    rw [hpid]
    exact ⟨((exec step meddling jobs).getD []), by decide +kernel, by decide +kernel⟩
  refine ⟨t', ht', ?_⟩
  have hstays := reach_settled reach_jobs hp hexec (reach_of_exec _ hrun)
  rwa [hpid, hsession, hpgrp] at hstays

end UsacSyscalls.Sys.Sessions
