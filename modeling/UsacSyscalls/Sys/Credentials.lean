import UsacSyscalls.Kernel

/-!
# The ids of a process

Reference model of the system calls of `kernel/sys.c` that change the user ids and the group ids of
a process.  The two families are copies of one another, except that a new user id is also counted
(`set_user`, `set_cred_ucounts`); they share one definition each, and each function of the source is
that definition at its own kind.  What the kernel answers during one call is a parameter; the
security modules may refuse a change, but do not change an id.

* `runs_within` — a process without the capability keeps to the ids it has, over any run of calls.
* `dropped_for_good` — ids that are given up are given up for good.
* `runs_shadowed` — the id for the file system follows the effective one, until it is set itself.
-/

set_option autoImplicit false

namespace UsacSyscalls.Sys

def EPERM : Errno := ⟨1, by decide, by decide⟩
def ESRCH : Errno := ⟨3, by decide, by decide⟩
def EAGAIN : Errno := ⟨11, by decide, by decide⟩
def EACCES : Errno := ⟨13, by decide, by decide⟩

/-! ## The calls -/

inductive Kind where
  | user
  | group
  deriving DecidableEq, Repr

/-- The ids of one kind in `struct cred`: `uid`, `euid`, `suid` and `fsuid`, or `gid` and so on. -/
structure Ids where
  id : UInt32
  eid : UInt32
  sid : UInt32
  fsid : UInt32
  deriving DecidableEq, Repr

/-- `INVALID_UID` and `INVALID_GID`, also the argument that leaves an id as it is. -/
def INVALID : UInt32 := 4294967295

inductive SetidFlag where
  | LSM_SETID_ID
  | LSM_SETID_RE
  | LSM_SETID_RES
  | LSM_SETID_FS
  deriving DecidableEq, Repr

/-- The kernel's answers during one call. -/
structure Answers where
  /-- `make_kuid` or `make_kgid` in the user namespace of the caller. -/
  makeKid : UInt32 → UInt32
  fromKidMunged : UInt32 → UInt32
  /-- `ns_capable_setid` for `CAP_SETUID` or `CAP_SETGID`. -/
  nsCapableSetid : Bool
  prepareCreds : Bool
  allocUid : UInt32 → Bool
  /-- `security_task_fix_setuid` or `security_task_fix_setgid`, with the new and the old ids. -/
  securityTaskFixSetid : Ids → Ids → SetidFlag → Option Errno
  setCredUcounts : Option Errno

section Calls

variable (kind : Kind) (a : Answers) (old : Ids)

/-- `set_user`, which only the calls for user ids make. -/
def setUser (new : Ids) : Option Errno :=
  if kind = .user ∧ new.id ≠ old.id ∧ a.allocUid new.id = false then some EAGAIN else none

def credUcounts : Option Errno := if kind = .user then a.setCredUcounts else none

/-- The end of a call: the new credentials are committed, or aborted. -/
def commit (new : Ids) (flag : SetidFlag) : Int × Ids :=
  match setUser kind a old new with
  | some e => (e.ret, old)
  | none =>
    match a.securityTaskFixSetid new old flag with
    | some e => (e.ret, old)
    | none =>
      match credUcounts kind a with
      | some e => (e.ret, old)
      | none => (0, new)

/-- The new ids of `__sys_setreuid` and `__sys_setregid`. -/
def reIds (rid eid : UInt32) : Ids :=
  let newEid := if eid ≠ INVALID then a.makeKid eid else old.eid
  { id := if rid ≠ INVALID then a.makeKid rid else old.id
    eid := newEid
    sid := if rid ≠ INVALID ∨ eid ≠ INVALID ∧ a.makeKid eid ≠ old.id then newEid else old.sid
    fsid := newEid }

/-- What `__sys_setreuid` and `__sys_setregid` share. -/
def setreid (rid eid : UInt32) : Int × Ids :=
  let krid := a.makeKid rid
  let keid := a.makeKid eid
  if rid ≠ INVALID ∧ krid = INVALID then (EINVAL.ret, old)
  else if eid ≠ INVALID ∧ keid = INVALID then (EINVAL.ret, old)
  else if a.prepareCreds = false then (ENOMEM.ret, old)
  else if rid ≠ INVALID ∧ ¬ (old.id = krid ∨ old.eid = krid ∨ a.nsCapableSetid = true) then
    (EPERM.ret, old)
  else if eid ≠ INVALID ∧ ¬ (old.id = keid ∨ old.eid = keid ∨ old.sid = keid ∨
      a.nsCapableSetid = true) then
    (EPERM.ret, old)
  else commit kind a old (reIds a old rid eid) .LSM_SETID_RE

/-- What `__sys_setuid` and `__sys_setgid` share. -/
def setid (id : UInt32) : Int × Ids :=
  let kid := a.makeKid id
  if kid = INVALID then (EINVAL.ret, old)
  else if a.prepareCreds = false then (ENOMEM.ret, old)
  else if a.nsCapableSetid then commit kind a old ⟨kid, kid, kid, kid⟩ .LSM_SETID_ID
  else if kid = old.id ∨ kid = old.sid then
    commit kind a old { old with eid := kid, fsid := kid } .LSM_SETID_ID
  else (EPERM.ret, old)

/-- Whether an id is none of the caller's three. -/
def Ids.isNew (old : Ids) (k : UInt32) : Prop := k ≠ old.id ∧ k ≠ old.eid ∧ k ≠ old.sid

instance (k : UInt32) : Decidable (old.isNew k) := inferInstanceAs (Decidable (_ ∧ _ ∧ _))

/-- The new ids of `__sys_setresuid` and `__sys_setresgid`. -/
def resIds (rid eid sid : UInt32) : Ids :=
  let newEid := if eid ≠ INVALID then a.makeKid eid else old.eid
  { id := if rid ≠ INVALID then a.makeKid rid else old.id
    eid := newEid
    sid := if sid ≠ INVALID then a.makeKid sid else old.sid
    fsid := newEid }

/-- What `__sys_setresuid` and `__sys_setresgid` share. -/
def setresid (rid eid sid : UInt32) : Int × Ids :=
  let krid := a.makeKid rid
  let keid := a.makeKid eid
  let ksid := a.makeKid sid
  if rid ≠ INVALID ∧ krid = INVALID then (EINVAL.ret, old)
  else if eid ≠ INVALID ∧ keid = INVALID then (EINVAL.ret, old)
  else if sid ≠ INVALID ∧ ksid = INVALID then (EINVAL.ret, old)
  -- nothing would change
  else if (rid = INVALID ∨ krid = old.id) ∧
      (eid = INVALID ∨ keid = old.eid ∧ keid = old.fsid) ∧ (sid = INVALID ∨ ksid = old.sid) then
    (0, old)
  else if (rid ≠ INVALID ∧ old.isNew krid ∨ eid ≠ INVALID ∧ old.isNew keid ∨
      sid ≠ INVALID ∧ old.isNew ksid) ∧ a.nsCapableSetid = false then
    (EPERM.ret, old)
  else if a.prepareCreds = false then (ENOMEM.ret, old)
  else commit kind a old (resIds a old rid eid sid) .LSM_SETID_RES

/-- What `__sys_setfsuid` and `__sys_setfsgid` share: the old id is returned in any case. -/
def setfsid (id : UInt32) : Int × Ids :=
  let oldFsid : Int := (a.fromKidMunged old.fsid).toNat
  let kid := a.makeKid id
  if kid = INVALID ∨ a.prepareCreds = false then (oldFsid, old)
  else if (kid = old.id ∨ kid = old.eid ∨ kid = old.sid ∨ kid = old.fsid ∨
      a.nsCapableSetid = true) ∧ kid ≠ old.fsid ∧
      a.securityTaskFixSetid { old with fsid := kid } old .LSM_SETID_FS = none then
    (oldFsid, { old with fsid := kid })
  else (oldFsid, old)

end Calls

def sysSetreuid := setreid .user
def sysSetuid := setid .user
def sysSetresuid := setresid .user
def sysSetfsuid := setfsid
def sysSetregid := setreid .group
def sysSetgid := setid .group
def sysSetresgid := setresid .group
def sysSetfsgid := setfsid

/-- A call with its arguments. -/
inductive SetidCall where
  | setreid (rid eid : UInt32)
  | setid (id : UInt32)
  | setresid (rid eid sid : UInt32)
  | setfsid (id : UInt32)
  deriving DecidableEq, Repr

def SetidCall.run : SetidCall → Kind → Answers → Ids → Int × Ids
  | .setreid rid eid, .user, a, old => sysSetreuid a old rid eid
  | .setreid rid eid, .group, a, old => sysSetregid a old rid eid
  | .setid id, .user, a, old => sysSetuid a old id
  | .setid id, .group, a, old => sysSetgid a old id
  | .setresid rid eid sid, .user, a, old => sysSetresuid a old rid eid sid
  | .setresid rid eid sid, .group, a, old => sysSetresgid a old rid eid sid
  | .setfsid id, .user, a, old => sysSetfsuid a old id
  | .setfsid id, .group, a, old => sysSetfsgid a old id

/-- The ids after a run of calls. -/
def runs (kind : Kind) (calls : List (SetidCall × Answers)) (ids : Ids) : Ids :=
  calls.foldl (fun ids c => (c.1.run kind c.2 ids).2) ids

/-! ## What a call can do -/

section Cases

variable {kind : Kind} {a : Answers} {old : Ids}

/-- A call fails and changes nothing, or succeeds with the new ids. -/
theorem commit_cases (new : Ids) (flag : SetidFlag) :
    (∃ e : Errno, commit kind a old new flag = (e.ret, old)) ∨
      commit kind a old new flag = (0, new) := by
  unfold commit
  cases setUser kind a old new with
  | some e => exact .inl ⟨e, rfl⟩
  | none =>
    cases a.securityTaskFixSetid new old flag with
    | some e => exact .inl ⟨e, rfl⟩
    | none =>
      cases credUcounts kind a with
      | some e => exact .inl ⟨e, rfl⟩
      | none => exact .inr rfl

/-- What is true of the old and of the new ids is true of the ids after the call. -/
theorem commit_either {P : Ids → Prop} {new : Ids} {flag : SetidFlag} (hold : P old)
    (hnew : P new) : P (commit kind a old new flag).2 := by
  rcases @commit_cases kind a old new flag with ⟨e, h⟩ | h
  · rwa [h]
  · rwa [h]

theorem commit_ok {new : Ids} {flag : SetidFlag} (h : (commit kind a old new flag).1 = 0) :
    (commit kind a old new flag).2 = new := by
  rcases @commit_cases kind a old new flag with ⟨e, he⟩ | hok
  · rw [he] at h
    exact absurd h (Int.ne_of_lt e.ret_neg)
  · rw [hok]

theorem run_setreid (rid eid : UInt32) :
    (SetidCall.setreid rid eid).run kind a old = setreid kind a old rid eid := by
  cases kind <;> rfl

theorem run_setid (id : UInt32) : (SetidCall.setid id).run kind a old = setid kind a old id := by
  cases kind <;> rfl

theorem run_setresid (rid eid sid : UInt32) :
    (SetidCall.setresid rid eid sid).run kind a old = setresid kind a old rid eid sid := by
  cases kind <;> rfl

theorem run_setfsid (id : UInt32) : (SetidCall.setfsid id).run kind a old = setfsid a old id := by
  cases kind <;> rfl

end Cases

/-- The answers in the initial user namespace, where every id stands for itself. -/
def Answers.init (nsCapableSetid : Bool) : Answers where
  makeKid k := k
  fromKidMunged k := k
  nsCapableSetid := nsCapableSetid
  prepareCreds := true
  allocUid _ := true
  securityTaskFixSetid _ _ _ := none
  setCredUcounts := none

/-! ## Without the capability -/

/-- Whether an id is one of the three of a process. -/
def Ids.Owns (ids : Ids) (k : UInt32) : Prop := k = ids.id ∨ k = ids.eid ∨ k = ids.sid

instance (ids : Ids) (k : UInt32) : Decidable (ids.Owns k) :=
  inferInstanceAs (Decidable (_ ∨ _ ∨ _))

/-- The ids of one process are among those of another one. -/
structure Within (ids₀ ids : Ids) : Prop where
  id : ids₀.Owns ids.id
  eid : ids₀.Owns ids.eid
  sid : ids₀.Owns ids.sid
  fsid : ids₀.Owns ids.fsid ∨ ids.fsid = ids₀.fsid

theorem Within.refl (ids : Ids) : Within ids ids :=
  ⟨.inl rfl, .inr (.inl rfl), .inr (.inr rfl), .inr rfl⟩

theorem Within.owns {ids₀ ids : Ids} (h : Within ids₀ ids) {k : UInt32} (hk : ids.Owns k) :
    ids₀.Owns k := by
  rcases hk with rfl | rfl | rfl
  exacts [h.id, h.eid, h.sid]

theorem Within.trans {ids₀ ids ids' : Ids} (h : Within ids₀ ids) (h' : Within ids ids') :
    Within ids₀ ids' := by
  refine ⟨h.owns h'.id, h.owns h'.eid, h.owns h'.sid, ?_⟩
  rcases h'.fsid with hown | hsame
  · exact .inl (h.owns hown)
  · rw [hsame]
    exact h.fsid

section Unprivileged

variable {kind : Kind} {a : Answers} {old : Ids}

/-- An argument that leaves an id as it is, or one that is checked to be the process's own. -/
theorem owns_ite {p : Prop} [Decidable p] {k k' : UInt32} (h : p → old.Owns k)
    (h' : old.Owns k') : old.Owns (if p then k else k') := by
  split
  · exact h ‹_›
  · exact h'

theorem setreid_within (hcap : a.nsCapableSetid = false) (rid eid : UInt32) :
    Within old (setreid kind a old rid eid).2 := by
  unfold setreid
  simp only [hcap, Bool.false_eq_true, or_false]
  split_ifs with h₁ h₂ h₃ hr he
  · exact .refl old
  · exact .refl old
  · exact .refl old
  · exact .refl old
  · exact .refl old
  · have hrid : old.Owns (if rid ≠ INVALID then a.makeKid rid else old.id) :=
      owns_ite (fun h => by
        rcases Classical.not_not.mp (not_and.mp hr h) with hk | hk
        · exact .inl hk.symm
        · exact .inr (.inl hk.symm)) (.inl rfl)
    have heid : old.Owns (if eid ≠ INVALID then a.makeKid eid else old.eid) :=
      owns_ite (fun h => by
        rcases Classical.not_not.mp (not_and.mp he h) with hk | hk | hk
        · exact .inl hk.symm
        · exact .inr (.inl hk.symm)
        · exact .inr (.inr hk.symm)) (.inr (.inl rfl))
    exact commit_either (.refl old)
      ⟨hrid, heid, owns_ite (fun _ => heid) (.inr (.inr rfl)), .inl heid⟩

theorem setid_within (hcap : a.nsCapableSetid = false) (id : UInt32) :
    Within old (setid kind a old id).2 := by
  unfold setid
  simp only [hcap, Bool.false_eq_true, if_false]
  split_ifs with h₁ h₂ hid
  · exact .refl old
  · exact .refl old
  · have hown : old.Owns (a.makeKid id) := hid.imp_right .inr
    exact commit_either (.refl old) ⟨.inl rfl, hown, .inr (.inr rfl), .inl hown⟩
  · exact .refl old

theorem owns_of_not_new {k : UInt32} (h : ¬ old.isNew k) : old.Owns k := by
  unfold Ids.Owns
  by_contra hnone
  simp only [not_or] at hnone
  exact h hnone

theorem setresid_within (hcap : a.nsCapableSetid = false) (rid eid sid : UInt32) :
    Within old (setresid kind a old rid eid sid).2 := by
  unfold setresid
  simp only [hcap, and_true]
  split_ifs with h₁ h₂ h₃ h₄ hnew h₅
  · exact .refl old
  · exact .refl old
  · exact .refl old
  · exact .refl old
  · exact .refl old
  · exact .refl old
  · simp only [not_or, not_and] at hnew
    obtain ⟨hr, he, hs⟩ := hnew
    have heid := owns_ite (fun h => owns_of_not_new (he h)) (.inr (.inl rfl) : old.Owns old.eid)
    exact commit_either (.refl old) ⟨owns_ite (fun h => owns_of_not_new (hr h)) (.inl rfl), heid,
      owns_ite (fun h => owns_of_not_new (hs h)) (.inr (.inr rfl)), .inl heid⟩

theorem setfsid_within (hcap : a.nsCapableSetid = false) (id : UInt32) :
    Within old (setfsid a old id).2 := by
  unfold setfsid
  simp only [hcap, Bool.false_eq_true, or_false]
  split_ifs with h₁ h₂
  · exact .refl old
  · refine ⟨.inl rfl, .inr (.inl rfl), .inr (.inr rfl), ?_⟩
    rcases h₂.1 with hk | hk | hk | hk
    · exact .inl (.inl hk)
    · exact .inl (.inr (.inl hk))
    · exact .inl (.inr (.inr hk))
    · exact .inr hk
  · exact .refl old

/-- The step lemma. -/
theorem run_within (hcap : a.nsCapableSetid = false) (call : SetidCall) :
    Within old (call.run kind a old).2 := by
  cases call with
  | setreid rid eid => rw [run_setreid]; exact setreid_within hcap rid eid
  | setid id => rw [run_setid]; exact setid_within hcap id
  | setresid rid eid sid => rw [run_setresid]; exact setresid_within hcap rid eid sid
  | setfsid id => rw [run_setfsid]; exact setfsid_within hcap id

end Unprivileged

/-- **Without the capability a process keeps to its ids**, whatever it calls and however often: its
    three ids stay among the three it started with, and the one for the file system is one of
    these or what it was. -/
theorem runs_within (kind : Kind) (calls : List (SetidCall × Answers)) (ids : Ids)
    (hcalls : ∀ c ∈ calls, c.2.nsCapableSetid = false) : Within ids (runs kind calls ids) := by
  induction calls generalizing ids with
  | nil => exact .refl ids
  | cons c calls ih =>
    have hfirst : Within ids (c.1.run kind c.2 ids).2 :=
      run_within (hcalls c List.mem_cons_self) c.1
    exact hfirst.trans (ih _ fun c' hc' => hcalls c' (List.mem_cons_of_mem c hc'))

/-- A `setuid` program that tries to become root. -/
theorem runs_within_setuid_program :
    Within ⟨1000, 33, 33, 33⟩ (runs .user [(.setreid 33 1000, .init false), (.setid 0, .init false),
      (.setresid 0 0 0, .init false), (.setfsid 33, .init false)] ⟨1000, 33, 33, 33⟩) :=
  runs_within .user _ _ (by decide)

/-! ## Ids that are given up -/

/-- All four ids are the same. -/
def Ids.all (k : UInt32) : Ids := ⟨k, k, k, k⟩

theorem within_all {k : UInt32} {ids : Ids} (h : Within (.all k) ids) : ids = .all k := by
  have hown : ∀ {k'}, (Ids.all k).Owns k' → k' = k := by
    rintro k' (h | h | h)
    exacts [h, h, h]
  obtain ⟨id, eid, sid, fsid⟩ := ids
  have hid : id = k := hown h.id
  have heid : eid = k := hown h.eid
  have hsid : sid = k := hown h.sid
  have hfsid : fsid = k := h.fsid.elim hown fun h => h
  rw [Ids.all, hid, heid, hsid, hfsid]

/-- The calls that give up all ids but one. -/
def GivesUp (kid : UInt32) (call : SetidCall) (a : Answers) (id : UInt32) : Prop :=
  a.makeKid id = kid ∧ id ≠ INVALID ∧
    (call = .setid id ∧ a.nsCapableSetid = true ∨ call = .setreid id id ∨ call = .setresid id id id)

theorem givesUp_all {kind : Kind} {call : SetidCall} {a : Answers} {old : Ids} {kid id : UInt32}
    (h : GivesUp kid call a id) (hok : (call.run kind a old).1 = 0) :
    (call.run kind a old).2 = .all kid := by
  obtain ⟨rfl, hid, ⟨rfl, hcap⟩ | rfl | rfl⟩ := h
  · rw [run_setid] at hok ⊢
    unfold setid at hok ⊢
    simp only [hcap, if_true] at hok ⊢
    split_ifs at hok ⊢ with h₁ h₂
    · cases hok
    · cases hok
    · exact commit_ok hok
  · rw [run_setreid] at hok ⊢
    unfold setreid at hok ⊢
    dsimp only at hok ⊢
    split_ifs at hok ⊢ with h₁ h₂ h₃ h₄
    · cases hok
    · cases hok
    · cases hok
    · cases hok
    · rw [commit_ok hok, reIds]
      simp only [hid, ne_eq, not_false_eq_true, true_or, if_true]
      rfl
  · rw [run_setresid] at hok ⊢
    unfold setresid at hok ⊢
    dsimp only at hok ⊢
    split_ifs at hok ⊢ with h₁ hsame h₂ h₃
    · cases hok
    · simp only [hid, false_or] at hsame
      obtain ⟨h₁, ⟨h₂, h₃⟩, h₄⟩ := hsame
      obtain ⟨id', eid', sid', fsid'⟩ := old
      simp only at h₁ h₂ h₃ h₄
      rw [Ids.all, ← h₁, ← h₂, ← h₃, ← h₄]
    · cases hok
    · cases hok
    · rw [commit_ok hok, resIds]
      simp only [hid, ne_eq, not_false_eq_true, if_true]
      rfl

/-- **Given up for good**: after a successful `setuid` with the capability, or a successful
    `setreuid` or `setresuid` that names one id throughout, no run of calls without the capability
    brings any other id back. -/
theorem dropped_for_good {kind : Kind} {call : SetidCall} {a : Answers} {old : Ids}
    {kid id : UInt32} (h : GivesUp kid call a id) (hok : (call.run kind a old).1 = 0)
    (calls : List (SetidCall × Answers)) (hcalls : ∀ c ∈ calls, c.2.nsCapableSetid = false) :
    runs kind ((call, a) :: calls) old = .all kid := by
  show runs kind calls (call.run kind a old).2 = .all kid
  rw [givesUp_all h hok]
  exact within_all (runs_within kind calls (.all kid) hcalls)

/-- A server that starts as root. -/
theorem dropped_for_good_server :
    runs .user [(.setid 33, .init true), (.setreid 0 0, .init false), (.setid 0, .init false)]
      (.all 0) = .all 33 :=
  dropped_for_good (a := .init true) ⟨rfl, by decide, .inl ⟨rfl, rfl⟩⟩ rfl
    [(.setreid 0 0, .init false), (.setid 0, .init false)] (by decide)

/-! ## The id for the file system -/

/-- The id for the file system is the effective one. -/
def Ids.Shadowed (ids : Ids) : Prop := ids.fsid = ids.eid

/-- A call but `setfsuid` fails and changes nothing, or succeeds; then it changes nothing or makes
    the id for the file system the effective one. -/
theorem run_cases {kind : Kind} {a : Answers} {old : Ids} {call : SetidCall}
    (hcall : ∀ id, call ≠ .setfsid id) :
    (∃ e : Errno, call.run kind a old = (e.ret, old)) ∨
      ∃ new, call.run kind a old = (0, new) ∧ (new = old ∨ new.Shadowed) := by
  have hcommit : ∀ {new : Ids} {flag}, new.Shadowed →
      (∃ e : Errno, commit kind a old new flag = (e.ret, old)) ∨
        ∃ new', commit kind a old new flag = (0, new') ∧ (new' = old ∨ new'.Shadowed) := by
    intro new flag hnew
    exact (commit_cases new flag).imp_right fun h => ⟨new, h, .inr hnew⟩
  cases call with
  | setreid rid eid =>
    rw [run_setreid, setreid]
    split_ifs
    · exact .inl ⟨_, rfl⟩
    · exact .inl ⟨_, rfl⟩
    · exact .inl ⟨_, rfl⟩
    · exact .inl ⟨_, rfl⟩
    · exact .inl ⟨_, rfl⟩
    · exact hcommit rfl
  | setid id =>
    rw [run_setid, setid]
    split_ifs
    · exact .inl ⟨_, rfl⟩
    · exact .inl ⟨_, rfl⟩
    · exact hcommit rfl
    · exact hcommit rfl
    · exact .inl ⟨_, rfl⟩
  | setresid rid eid sid =>
    rw [run_setresid, setresid]
    split_ifs
    · exact .inl ⟨_, rfl⟩
    · exact .inl ⟨_, rfl⟩
    · exact .inl ⟨_, rfl⟩
    · exact .inr ⟨old, rfl, .inl rfl⟩
    · exact .inl ⟨_, rfl⟩
    · exact .inl ⟨_, rfl⟩
    · exact hcommit rfl
  | setfsid id => exact absurd rfl (hcall id)

theorem run_shadowed {kind : Kind} {a : Answers} {old : Ids} (h : old.Shadowed) {call : SetidCall}
    (hcall : ∀ id, call ≠ .setfsid id) : (call.run kind a old).2.Shadowed := by
  rcases @run_cases kind a old call hcall with ⟨e, hrun⟩ | ⟨new, hrun, rfl | hnew⟩
  · rwa [hrun]
  · rwa [hrun]
  · rwa [hrun]

/-- **The id for the file system follows the effective id** over every run in which it is not set
    itself, with and without the capability and however many of the calls fail. -/
theorem runs_shadowed (kind : Kind) (calls : List (SetidCall × Answers)) {ids : Ids}
    (h : ids.Shadowed) (hcalls : ∀ c ∈ calls, ∀ id, c.1 ≠ .setfsid id) :
    (runs kind calls ids).Shadowed := by
  induction calls generalizing ids with
  | nil => exact h
  | cons c calls ih =>
    exact ih (run_shadowed h (hcalls c List.mem_cons_self))
      fun c' hc' => hcalls c' (List.mem_cons_of_mem c hc')

/-- A `setuid` program that gives up its privilege with `seteuid` in between. -/
example : (runs .user [(.setresid INVALID 1000 INVALID, .init false), (.setid 33, .init false)]
    ⟨1000, 33, 33, 33⟩).Shadowed := runs_shadowed .user _ rfl (by simp)

end UsacSyscalls.Sys
