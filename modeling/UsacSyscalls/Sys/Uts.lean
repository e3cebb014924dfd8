import Mathlib.Data.List.TakeWhile
import UsacSyscalls.Lib.CString
import UsacSyscalls.Lib.Decimal
import UsacSyscalls.Lib.Format
import UsacSyscalls.Sys.Credentials

/-!
# The names of the system

Reference model of `sethostname`, `setdomainname`, `gethostname` and the three versions of `uname`
of `kernel/sys.c`, over the names of `include/linux/uts.h`.  A call holds `uts_sem` while it reads
or writes a name, so the calls take effect one after another.

* `Names`, `runs_names` — the two names that can be set, and the fields of the kernel that hold
  them after any run of calls.
* `runs_uname` — what the three versions of `uname` tell after any run of calls.
* `runs_gethostname` — what is read of the name of the host that was accepted last.
-/

set_option autoImplicit false

namespace UsacSyscalls.Sys.Uts

open Lib.CString Lib.Decimal Lib.Format

def NEW_UTS_LEN : Nat := 64
def OLD_UTS_LEN : Nat := 8

def UTS_SYSNAME : Bytes := bytes "USAC Linux"
def UTS_DOMAINNAME : Bytes := bytes "(none)"

/-! ## The calls -/

/-- `struct new_utsname`. -/
structure Utsname where
  sysname : Bytes
  nodename : Bytes
  release : Bytes
  version : Bytes
  machine : Bytes
  domainname : Bytes
  deriving DecidableEq, Repr

/-- What `sethostname` and `setdomainname` make of a field; `name` is what can be read at the
    address they are given. -/
def setField (capable : Bool) (name : Bytes) (len : Int) (field : Bytes) : Int × Bytes :=
  if capable = false then (EPERM.ret, field)
  else if len < 0 ∨ len > NEW_UTS_LEN then (EINVAL.ret, field)
  else if name.length < len.toNat then (EFAULT.ret, field)
  else (0, name.take len.toNat ++ List.replicate (field.length - len.toNat) 0)

def sethostname (u : Utsname) (capable : Bool) (name : Bytes) (len : Int) : Int × Utsname :=
  let r := setField capable name len u.nodename
  (r.1, { u with nodename := r.2 })

def setdomainname (u : Utsname) (capable : Bool) (name : Bytes) (len : Int) : Int × Utsname :=
  let r := setField capable name len u.domainname
  (r.1, { u with domainname := r.2 })

/-- `gethostname`; `none` when `strlen` leaves the field, or the name the local array. -/
def gethostname (u : Utsname) (len : Int) (accepts : Nat) : Option Reply :=
  if len < 0 then some ⟨EINVAL.ret, []⟩
  else
    (strlen u.nodename).bind fun n =>
      let i := if 1 + n > len.toNat then len.toNat else 1 + n
      if i ≤ NEW_UTS_LEN + 1 then some (copyToUser accepts (u.nodename.take i)) else none

/-- The personality of a program, and the constants that it is told instead. -/
structure Personality where
  /-- `UNAME26`. -/
  uname26 : Bool
  utsRelease : Bytes
  noNul : (0 : UInt8) ∉ utsRelease
  /-- `LINUX_VERSION_PATCHLEVEL`. -/
  patchlevel : Nat
  /-- `COMPAT_UTS_MACHINE` with all its bytes, for `PER_LINUX32`. -/
  compatMachine : Option Bytes

/-- The loop of `override_release`: the release from its third dot on, or from the first byte that
    is no digit and no dot. -/
def restFrom : Nat → Bytes → Bytes
  | _, [] => []
  | ndots, c :: cs =>
    if c = 46 ∧ ndots + 1 ≥ 3 then c :: cs
    else if isDigit c = false ∧ c ≠ 46 then c :: cs
    else restFrom (if c = 46 then ndots + 1 else ndots) cs

def clampLen (len : Nat) : Nat := max 1 (min len 65)

/-- The text that `override_release` prints. -/
def Personality.text (p : Personality) : Bytes :=
  bytes "2.6." ++ decimal (p.patchlevel + 60) ++ restFrom 0 p.utsRelease

/-- What `override_release` makes of a field of `len` bytes. -/
def overrideRelease (p : Personality) (len : Nat) (release : Bytes) : Bytes :=
  if p.uname26 then overwrite release (p.text.take (clampLen len - 1) ++ [0]) else release

def overrideArchitecture (p : Personality) (machine : Bytes) : Bytes :=
  p.compatMachine.elim machine (overwrite machine)

def newuname (u : Utsname) (p : Personality) (copyToUser : Bool) : Except Errno Utsname :=
  if copyToUser = false then .error EFAULT
  else
    .ok { u with
      release := overrideRelease p (NEW_UTS_LEN + 1) u.release
      machine := overrideArchitecture p u.machine }

/-- `uname`, whose structure ends before the name of the domain. -/
def uname (u : Utsname) (p : Personality) (copyToUser : Bool) : Except Errno Utsname :=
  (newuname u p copyToUser).map fun u => { u with domainname := [] }

/-- A field of `struct oldold_utsname`. -/
def oldField (field : Bytes) : Bytes := field.take OLD_UTS_LEN ++ [0]

def olduname (u : Utsname) (p : Personality) (copyToUser : Bool) : Except Errno Utsname :=
  if copyToUser = false then .error EFAULT
  else
    .ok {
      sysname := oldField u.sysname
      nodename := oldField u.nodename
      release := overrideRelease p (OLD_UTS_LEN + 1) (oldField u.release)
      version := oldField u.version
      machine := overrideArchitecture p (oldField u.machine)
      domainname := [] }

/-! ## Names -/

/-- A name that fits. -/
structure Name where
  bytes : Bytes
  fits : bytes.length ≤ NEW_UTS_LEN
  deriving DecidableEq, Repr

/-- A field that holds a name. -/
def Name.field (n : Name) : Bytes :=
  n.bytes ++ List.replicate (NEW_UTS_LEN + 1 - n.bytes.length) 0

/-- The names that can be set. -/
structure Names where
  host : Name
  domain : Name

/-- A call that sets a name. -/
structure SetCall where
  /-- `setdomainname`. -/
  isDomain : Bool
  capable : Bool
  name : Bytes
  len : Int

def SetCall.run (c : SetCall) (u : Utsname) : Int × Utsname :=
  if c.isDomain then setdomainname u c.capable c.name c.len
  else sethostname u c.capable c.name c.len

/-- The name a call sets, if it succeeds. -/
def SetCall.accepted (c : SetCall) : Option Name :=
  if h : c.capable = true ∧ 0 ≤ c.len ∧ c.len ≤ NEW_UTS_LEN ∧ c.len.toNat ≤ c.name.length then
    some ⟨c.name.take c.len.toNat, by rw [List.length_take]; omega⟩
  else none

def Names.set (n : Names) (isDomain : Bool) (x : Name) : Names :=
  if isDomain then { n with domain := x } else { n with host := x }

/-- The names after a call. -/
def Names.after (n : Names) (c : SetCall) : Names := c.accepted.elim n (n.set c.isDomain)

def runs (calls : List SetCall) (u : Utsname) : Utsname := calls.foldl (fun u c => (c.run u).2) u

/-- The names of the kernel hold two names, and are otherwise those of the start. -/
structure Refines (u₀ u : Utsname) (n : Names) : Prop where
  nodename : u.nodename = n.host.field
  domainname : u.domainname = n.domain.field
  others : { u with nodename := u₀.nodename, domainname := u₀.domainname } = u₀

theorem Name.field_length (n : Name) : n.field.length = NEW_UTS_LEN + 1 := by
  have hfits := n.fits
  rw [Name.field, List.length_append, List.length_replicate]
  omega

theorem setField_eq (c : SetCall) (n : Name) :
    (setField c.capable c.name c.len n.field).2 = (c.accepted.getD n).field := by
  unfold setField SetCall.accepted
  by_cases hcap : c.capable = false
  · rw [if_pos hcap, dif_neg (by simp [hcap])]
    rfl
  by_cases hlen : c.len < 0 ∨ c.len > NEW_UTS_LEN
  · rw [if_neg hcap, if_pos hlen, dif_neg (by omega)]
    rfl
  by_cases hread : c.name.length < c.len.toNat
  · rw [if_neg hcap, if_neg hlen, if_pos hread, dif_neg (by omega)]
    rfl
  · rw [if_neg hcap, if_neg hlen, if_neg hread,
      dif_pos ⟨by simpa using hcap, by omega, by omega, by omega⟩]
    have htake : (c.name.take c.len.toNat).length = c.len.toNat := by
      rw [List.length_take]
      omega
    rw [n.field_length]
    simp only [Option.getD_some, Name.field, htake]

/-- The step lemma. -/
theorem run_names {u₀ u : Utsname} {n : Names} (h : Refines u₀ u n) (c : SetCall) :
    Refines u₀ (c.run u).2 (n.after c) := by
  obtain ⟨hnode, hdomain, hothers⟩ := h
  unfold SetCall.run Names.after
  have hfield := setField_eq c
  by_cases hwhich : c.isDomain = true
  · rw [if_pos hwhich]
    simp only [setdomainname, hdomain, hfield]
    cases hacc : c.accepted with
    | none => exact ⟨hnode, rfl, hothers⟩
    | some x =>
      simp only [Option.elim_some, Names.set, hwhich, if_true]
      exact ⟨hnode, rfl, hothers⟩
  · rw [if_neg hwhich]
    simp only [sethostname, hnode, hfield]
    cases hacc : c.accepted with
    | none => exact ⟨rfl, hdomain, hothers⟩
    | some x =>
      simp only [Option.elim_some, Names.set, hwhich, if_false, Bool.false_eq_true]
      exact ⟨rfl, hdomain, hothers⟩

/-- **The fields hold the names**, after any run of calls. -/
theorem runs_names (calls : List SetCall) {u₀ u : Utsname} {n : Names} (h : Refines u₀ u n) :
    Refines u₀ (runs calls u) (calls.foldl Names.after n) := by
  induction calls generalizing u n with
  | nil => exact h
  | cons c calls ih => exact ih (run_names h c)

/-! ## What programs are told -/

def Name.sysname : Name := ⟨UTS_SYSNAME, by decide⟩
def Name.domainname : Name := ⟨UTS_DOMAINNAME, by decide⟩

/-- The names at boot; the host has its name from `CONFIG_DEFAULT_HOSTNAME`. -/
def boot (host release version machine : Name) : Utsname where
  sysname := Name.sysname.field
  nodename := host.field
  release := release.field
  version := version.field
  machine := machine.field
  domainname := Name.domainname.field

theorem boot_refines (host release version machine : Name) :
    Refines (boot host release version machine) (boot host release version machine)
      ⟨host, .domainname⟩ :=
  ⟨rfl, rfl, rfl⟩

/-- A field holds its name up to the first NUL. -/
theorem Name.holds (n : Name) : Holds n.field (cString n.bytes) := by
  refine ⟨?_, fun h => by simpa using List.mem_takeWhile_imp h⟩
  have hfits := n.fits
  have hpad : List.replicate (NEW_UTS_LEN + 1 - n.bytes.length) (0 : UInt8) =
      0 :: List.replicate (NEW_UTS_LEN - n.bytes.length) 0 := by
    rw [show NEW_UTS_LEN + 1 - n.bytes.length = NEW_UTS_LEN - n.bytes.length + 1 by omega]
    rfl
  have hsplit := List.takeWhile_append_dropWhile (p := (· != 0)) (l := n.bytes)
  rw [Name.field, hpad]
  generalize List.replicate (NEW_UTS_LEN - n.bytes.length) (0 : UInt8) = zeros
  cases hrest : n.bytes.dropWhile (· != 0) with
  | nil =>
    refine ⟨zeros, ?_⟩
    rw [hrest, List.append_nil] at hsplit
    rw [cString, hsplit]
  | cons b rest =>
    have hhead := List.head_dropWhile_not (· != 0) (l := n.bytes) (by rw [hrest]; simp)
    have hb : b = 0 := by simpa [hrest] using hhead
    refine ⟨rest ++ 0 :: zeros, ?_⟩
    rw [hrest, hb] at hsplit
    rw [cString]
    conv_lhs => rw [← hsplit]
    rw [List.append_assoc, List.cons_append]

theorem oldField_holds {field t : Bytes} (h : Holds field t) :
    Holds (oldField field) (t.take OLD_UTS_LEN) :=
  h.truncate OLD_UTS_LEN

theorem mem_restFrom {b : UInt8} : ∀ {cs : Bytes} (ndots : Nat), b ∈ restFrom ndots cs → b ∈ cs
  | [], _, h => h
  | c :: cs, ndots, h => by
    rw [restFrom] at h
    by_cases hdots : c = 46 ∧ ndots + 1 ≥ 3
    · rwa [if_pos hdots] at h
    by_cases hdigit : isDigit c = false ∧ c ≠ 46
    · rwa [if_neg hdots, if_pos hdigit] at h
    · rw [if_neg hdots, if_neg hdigit] at h
      exact List.mem_cons_of_mem c (mem_restFrom _ h)

theorem Personality.zero_not_mem_text (p : Personality) : (0 : UInt8) ∉ p.text := by
  intro h
  rcases List.mem_append.mp h with h | h
  · rcases List.mem_append.mp h with h | h
    · exact absurd h (by decide)
    · exact zero_not_mem_decimal _ h
  · exact p.noNul (mem_restFrom 0 h)

theorem overwrite_holds (field : Bytes) {t : Bytes} (ht : (0 : UInt8) ∉ t) :
    Holds (overwrite field (t ++ [0])) t := by
  refine ⟨⟨field.drop (t ++ [0]).length, ?_⟩, ht⟩
  simp [overwrite]

/-- The release that programs are told. -/
def Personality.release (p : Personality) (release : Name) : Bytes :=
  if p.uname26 then p.text.take NEW_UTS_LEN else cString release.bytes

theorem overrideRelease_new (p : Personality) (release : Name) :
    Holds (overrideRelease p (NEW_UTS_LEN + 1) release.field) (p.release release) := by
  unfold overrideRelease Personality.release
  by_cases h26 : p.uname26 = true
  · rw [if_pos h26, if_pos h26]
    exact overwrite_holds _ fun h => p.zero_not_mem_text (List.mem_of_mem_take h)
  · rw [if_neg h26, if_neg h26]
    exact release.holds

theorem overrideRelease_old (p : Personality) (release : Name) :
    Holds (overrideRelease p (OLD_UTS_LEN + 1) (oldField release.field))
      ((p.release release).take OLD_UTS_LEN) := by
  unfold overrideRelease Personality.release
  by_cases h26 : p.uname26 = true
  · rw [if_pos h26, if_pos h26, List.take_take]
    exact overwrite_holds _ fun h => p.zero_not_mem_text (List.mem_of_mem_take h)
  · rw [if_neg h26, if_neg h26]
    exact oldField_holds release.holds

/-- What programs read of the system. -/
structure Texts where
  sysname : Bytes
  nodename : Bytes
  release : Bytes
  version : Bytes

def Texts.cut (n : Nat) (t : Texts) : Texts where
  sysname := t.sysname.take n
  nodename := t.nodename.take n
  release := t.release.take n
  version := t.version.take n

structure Tells (u : Utsname) (t : Texts) : Prop where
  sysname : Holds u.sysname t.sysname
  nodename : Holds u.nodename t.nodename
  release : Holds u.release t.release
  version : Holds u.version t.version

/-- **What programs are told** after any run of calls, with any personality: `newuname` tells the
    names that were accepted last, `uname` the same without the domain, and `olduname` the first
    eight bytes of the same texts. -/
theorem runs_uname (calls : List SetCall) (host release version machine : Name)
    (p : Personality) :
    let names := calls.foldl Names.after ⟨host, .domainname⟩
    let texts : Texts :=
      ⟨UTS_SYSNAME, cString names.host.bytes, p.release release, cString version.bytes⟩
    ∃ new old,
      newuname (runs calls (boot host release version machine)) p true = .ok new ∧
      uname (runs calls (boot host release version machine)) p true =
        .ok { new with domainname := [] } ∧
      olduname (runs calls (boot host release version machine)) p true = .ok old ∧
      Tells new texts ∧ Holds new.domainname (cString names.domain.bytes) ∧
      Tells old (texts.cut OLD_UTS_LEN) := by
  intro names texts
  have href := runs_names calls (boot_refines host release version machine)
  generalize runs calls (boot host release version machine) = u at href
  have hsysname : u.sysname = Name.sysname.field := congrArg Utsname.sysname href.others
  have hrelease : u.release = release.field := congrArg Utsname.release href.others
  have hversion : u.version = version.field := congrArg Utsname.version href.others
  have hsys : Holds u.sysname UTS_SYSNAME := by
    rw [hsysname]
    exact Name.sysname.holds
  have hnode : Holds u.nodename (cString names.host.bytes) := by
    rw [href.nodename]
    exact names.host.holds
  have hver : Holds u.version (cString version.bytes) := by
    rw [hversion]
    exact version.holds
  refine ⟨_, _, rfl, rfl, rfl, ⟨hsys, hnode, ?_, hver⟩, ?_,
    ⟨oldField_holds hsys, oldField_holds hnode, ?_, oldField_holds hver⟩⟩
  · show Holds (overrideRelease p (NEW_UTS_LEN + 1) u.release) _
    rw [hrelease]
    exact overrideRelease_new p release
  · show Holds u.domainname _
    rw [href.domainname]
    exact names.domain.holds
  · show Holds (overrideRelease p (OLD_UTS_LEN + 1) (oldField u.release)) _
    rw [hrelease]
    exact overrideRelease_old p release

/-- **`gethostname` stays in its buffers** after any run of calls, and delivers the name of the
    host that was accepted last, up to its first NUL and no more than `len` bytes. -/
theorem runs_gethostname (calls : List SetCall) (host release version machine : Name) (len : Int)
    (accepts : Nat) :
    gethostname (runs calls (boot host release version machine)) len accepts =
      some (if len < 0 then ⟨EINVAL.ret, []⟩
        else copyToUser accepts
          ((cString (calls.foldl Names.after ⟨host, .domainname⟩).host.bytes ++ [0]).take
            len.toNat)) := by
  have href := runs_names calls (boot_refines host release version machine)
  generalize calls.foldl Names.after ⟨host, .domainname⟩ = names at href
  generalize runs calls (boot host release version machine) = u at href
  by_cases hneg : len < 0
  · rw [gethostname, if_pos hneg, if_pos hneg]
  have hholds := names.host.holds
  have hlt := hholds.length_lt
  rw [names.host.field_length] at hlt
  rw [gethostname, if_neg hneg, if_neg hneg, href.nodename, hholds.strlen_eq, Option.bind_some]
  obtain ⟨rest, hfield⟩ := hholds.starts
  have hsplit : names.host.field = (cString names.host.bytes ++ [0]) ++ rest := by
    rw [hfield, List.append_assoc, List.singleton_append]
  have htext : (cString names.host.bytes ++ [0]).length = 1 + (cString names.host.bytes).length := by
    rw [List.length_append, List.length_singleton, Nat.add_comm]
  by_cases hshort : 1 + (cString names.host.bytes).length > len.toNat
  · simp only [if_pos hshort]
    rw [if_pos (by omega), hsplit, List.take_append_of_le_length (by omega)]
  · simp only [if_neg hshort]
    rw [if_pos (by omega), hsplit, ← htext, List.take_left, List.take_of_length_le (by omega)]

end UsacSyscalls.Sys.Uts
