import UsacSyscalls.Stats.Accounting

/-!
# What `sysinfo` reports

Reference model of `do_sysinfo` of `kernel/sys.c` and of the two system calls on top of it.  The
kernel counts memory in units, which are pages; the report is in bytes if the bytes fit into a
word.  A program of 32 bits gets bytes if they fit into its word, and pages otherwise.

* `countBits_eq` — the loop that looks for an overflow.
* `sysinfo_bytes` — unit and values stand for the same bytes as the kernel's, and exactly when the
  unit becomes a byte.
* `compat_exact_iff` — exactly when a program of 32 bits is told the same bytes.
* `ramStats_sysinfo` — the figures of `get_ram_stats` and `get_swap_info` are those of `sysinfo`.
-/

set_option autoImplicit false

namespace UsacSyscalls.Sys.Sysinfo

open Stats

/-! ## The report -/

/-- The values of `struct sysinfo` that count memory. -/
inductive Field where
  | totalram
  | freeram
  | sharedram
  | bufferram
  | totalswap
  | freeswap
  | totalhigh
  | freehigh
  deriving DecidableEq, Repr

abbrev Memory := Field → UInt64

/-- What the kernel's functions answer: the time since boot, the loads, `nr_threads`, and what
    `si_meminfo` and `si_swapinfo` fill in. -/
structure Kernel where
  bootSec : Int
  bootNsec : Nat
  loads : Fin 3 → UInt64
  nrThreads : Nat
  mem : Memory
  memUnit : UInt32

/-- `struct sysinfo`. -/
structure Info where
  uptime : Int
  loads : Fin 3 → UInt64
  procs : UInt16
  mem : Memory
  memUnit : UInt32

/-- The loop over `mem_unit`: the number of its bits, or `none` when the total does not fit. -/
def countBits (memUnit : UInt32) (memTotal : UInt64) : Option Nat :=
  if h : 1 < memUnit.toNat then
    if memTotal <<< 1 < memTotal then none
    else (countBits (memUnit >>> 1) (memTotal <<< 1)).map (· + 1)
  else some 0
termination_by memUnit.toNat
decreasing_by
  have hshift : (memUnit >>> 1).toNat = memUnit.toNat / 2 := by
    rw [UInt32.toNat_shiftRight]
    rfl
  omega

/-- `bitcount`, if the values are to be counted in bytes. -/
def bitcount (k : Kernel) : Option Nat :=
  let memTotal := k.mem .totalram + k.mem .totalswap
  if memTotal < k.mem .totalram ∨ memTotal < k.mem .totalswap then none
  else countBits k.memUnit memTotal

def doSysinfo (k : Kernel) : Info where
  uptime := k.bootSec + if k.bootNsec ≠ 0 then 1 else 0
  loads := k.loads
  procs := k.nrThreads.toUInt16
  mem f := (bitcount k).elim (k.mem f) fun n => k.mem f <<< n.toUInt64
  memUnit := (bitcount k).elim k.memUnit fun _ => 1

def sysinfo (k : Kernel) (copyToUser : Bool) : Except Errno Info :=
  if copyToUser then .ok (doSysinfo k) else .error EFAULT

/-- `struct compat_sysinfo`. -/
structure CompatInfo where
  uptime : Int
  loads : Fin 3 → UInt32
  procs : UInt16
  mem : Field → UInt32
  memUnit : UInt32

/-- The loop that makes the unit a page, and counts; `none` when it does not end. -/
def growUnit (memUnit : UInt32) : Option (UInt32 × Nat) :=
  if memUnit = 0 then none
  else if PAGE_SIZE.toNat ≤ memUnit.toNat then some (memUnit, 0)
  else (growUnit (memUnit <<< 1)).map fun r => (r.1, r.2 + 1)
termination_by 4096 - memUnit.toNat
decreasing_by
  rename_i hzero hsmall
  have hpage : PAGE_SIZE.toNat = 4096 := rfl
  have hne : memUnit.toNat ≠ 0 := fun h => hzero (UInt32.toNat_inj.mp h)
  have hshift : (memUnit <<< 1).toNat = memUnit.toNat * 2 := by
    rw [UInt32.toNat_shiftLeft, UInt32.toNat_one, Nat.one_mod, Nat.shiftLeft_eq]
    omega
  omega

/-- `upper_32_bits`. -/
def upper32Bits (x : UInt64) : UInt64 := x >>> 32

/-- The unit for a program of 32 bits, and by how many bits the values are shifted back. -/
def scaled (s : Info) : Option (UInt32 × Nat) :=
  if upper32Bits (s.mem .totalram) ≠ 0 ∨ upper32Bits (s.mem .totalswap) ≠ 0 then growUnit s.memUnit
  else some (s.memUnit, 0)

def Info.toCompat (s : Info) (r : UInt32 × Nat) : CompatInfo where
  uptime := toInt s.uptime
  loads i := (s.loads i).toUInt32
  procs := s.procs
  mem f := (s.mem f >>> r.2.toUInt64).toUInt32
  memUnit := r.1

def compatSysinfo (k : Kernel) : Option CompatInfo :=
  (scaled (doSysinfo k)).map (doSysinfo k).toCompat

/-! ## The loop -/

theorem toNat_half (u : UInt32) : (u >>> 1).toNat = u.toNat / 2 := by
  rw [UInt32.toNat_shiftRight]
  rfl

theorem toNat_double (t : UInt64) : (t <<< 1).toNat = t.toNat * 2 % 2 ^ 64 := by
  rw [UInt64.toNat_shiftLeft, UInt64.toNat_one, Nat.one_mod, Nat.shiftLeft_eq, Nat.pow_one]

/-- Doubling overflows exactly when the result is smaller. -/
theorem double_lt_iff (t : UInt64) : t <<< 1 < t ↔ 2 ^ 64 ≤ t.toNat * 2 := by
  have ht := t.toNat_lt
  rw [UInt64.lt_iff_toNat_lt, toNat_double]
  omega

theorem log2_half {n : Nat} (h : 1 < n) (t : Nat) : t * 2 ^ n.log2 = t * 2 * 2 ^ (n / 2).log2 := by
  have hlog : n.log2 = (n / 2).log2 + 1 := by rw [Nat.log2_def, if_pos (show 2 ≤ n from h)]
  rw [hlog, Nat.pow_succ, Nat.mul_comm (2 ^ _) 2, ← Nat.mul_assoc]

/-- The induction over the bits of the unit. -/
theorem countBits_eq (u : UInt32) (t : UInt64) :
    countBits u t =
      if t.toNat * 2 ^ u.toNat.log2 < 2 ^ 64 then some u.toNat.log2 else none := by
  induction u, t using countBits.induct with
  | case1 u t h hlt =>
    rw [double_lt_iff] at hlt
    have hle : t.toNat * 2 * 1 ≤ t.toNat * 2 * 2 ^ (u.toNat / 2).log2 :=
      Nat.mul_le_mul_left _ Nat.one_le_two_pow
    rw [countBits, dif_pos h, if_pos ((double_lt_iff t).mpr hlt), log2_half h, if_neg (by omega)]
  | case2 u t h hlt ih =>
    have hdouble : (t <<< 1).toNat = t.toNat * 2 := by
      rw [double_lt_iff] at hlt
      rw [toNat_double]
      omega
    have hlog : u.toNat.log2 = (u.toNat / 2).log2 + 1 := by
      rw [Nat.log2_def, if_pos (show 2 ≤ u.toNat from h)]
    rw [countBits, dif_pos h, if_neg hlt, ih, toNat_half, hdouble, log2_half h, hlog]
    split <;> rfl
  | case3 u t h =>
    have hlog : u.toNat.log2 = 0 := by
      rw [Nat.log2_def, if_neg (show ¬ 2 ≤ u.toNat from h)]
    have ht := t.toNat_lt
    rw [countBits, dif_neg h, hlog, if_pos (by omega)]

/-! ## Bytes -/

/-- All memory, in units. -/
def Kernel.total (k : Kernel) : Nat := (k.mem .totalram).toNat + (k.mem .totalswap).toNat

theorem bitcount_eq (k : Kernel) :
    bitcount k =
      if k.total * 2 ^ k.memUnit.toNat.log2 < 2 ^ 64 then some k.memUnit.toNat.log2 else none := by
  have hram := (k.mem .totalram).toNat_lt
  have hswap := (k.mem .totalswap).toNat_lt
  have hle : k.total * 1 ≤ k.total * 2 ^ k.memUnit.toNat.log2 :=
    Nat.mul_le_mul_left _ Nat.one_le_two_pow
  simp only [bitcount, countBits_eq, UInt64.lt_iff_toNat_lt, UInt64.toNat_add]
  unfold Kernel.total at *
  by_cases hwrap : (k.mem .totalram).toNat + (k.mem .totalswap).toNat < 2 ^ 64
  · rw [Nat.mod_eq_of_lt hwrap, if_neg (by omega)]
  · rw [if_pos (by omega), if_neg (by omega)]

/-- Every value counts a part of the RAM or of the swap space. -/
def Kernel.Parts (k : Kernel) : Prop :=
  ∀ f, k.mem f ≤ k.mem .totalram ∨ k.mem f ≤ k.mem .totalswap

theorem Kernel.Parts.le_total {k : Kernel} (h : k.Parts) (f : Field) :
    (k.mem f).toNat ≤ k.total := by
  unfold Kernel.total
  rcases h f with h | h
  · have := UInt64.le_iff_toNat_le.mp h
    omega
  · have := UInt64.le_iff_toNat_le.mp h
    omega

/-- A shift that loses no bits. -/
theorem toNat_shift {x : UInt64} {n : Nat} (hn : n < 64) (h : x.toNat * 2 ^ n < 2 ^ 64) :
    (x <<< n.toUInt64).toNat = x.toNat * 2 ^ n := by
  have hmod : n.toUInt64.toNat % 64 = n := by
    rw [Nat.toUInt64, UInt64.toNat_ofNat']
    omega
  rw [UInt64.toNat_shiftLeft, hmod, Nat.shiftLeft_eq, Nat.mod_eq_of_lt h]

theorem log2_lt_32 (u : UInt32) : u.toNat.log2 < 32 := by
  have hu := u.toNat_lt
  by_cases hzero : u.toNat = 0
  · rw [hzero]
    decide
  · exact (Nat.log2_lt hzero).mpr hu

/-- What the report looks like: it is in bytes if the bytes fit, otherwise as the kernel counts. -/
theorem doSysinfo_cases {k : Kernel} (h : k.Parts) :
    (k.total * 2 ^ k.memUnit.toNat.log2 < 2 ^ 64 ∧ (doSysinfo k).memUnit = 1 ∧
        ∀ f, ((doSysinfo k).mem f).toNat = (k.mem f).toNat * 2 ^ k.memUnit.toNat.log2) ∨
      (2 ^ 64 ≤ k.total * 2 ^ k.memUnit.toNat.log2 ∧ (doSysinfo k).memUnit = k.memUnit ∧
        (doSysinfo k).mem = k.mem) := by
  by_cases hfits : k.total * 2 ^ k.memUnit.toNat.log2 < 2 ^ 64
  · refine .inl ⟨hfits, ?_, fun f => ?_⟩
    · simp only [doSysinfo, bitcount_eq, if_pos hfits, Option.elim_some]
    · simp only [doSysinfo, bitcount_eq, if_pos hfits, Option.elim_some]
      have hle := Nat.mul_le_mul_right (2 ^ k.memUnit.toNat.log2) (h.le_total f)
      exact toNat_shift (Nat.lt_trans (log2_lt_32 k.memUnit) (by decide)) (by omega)
  · refine .inr ⟨Nat.le_of_not_lt hfits, ?_, ?_⟩
    · simp only [doSysinfo, bitcount_eq, if_neg hfits, Option.elim_none]
    · simp only [doSysinfo, bitcount_eq, if_neg hfits, Option.elim_none]

/-- What a program makes of a value. -/
def Info.bytes (s : Info) (f : Field) : Nat := (s.mem f).toNat * s.memUnit.toNat

theorem doSysinfo_bytes {k : Kernel} (h : k.Parts) {n : Nat} (hunit : k.memUnit.toNat = 2 ^ n)
    (f : Field) : (doSysinfo k).bytes f = (k.mem f).toNat * k.memUnit.toNat := by
  have hlog : 2 ^ k.memUnit.toNat.log2 = k.memUnit.toNat := by rw [hunit, Nat.log2_two_pow]
  rcases doSysinfo_cases h with ⟨-, hone, hmem⟩ | ⟨-, hsame, hmem⟩
  · rw [Info.bytes, hmem f, hone, hlog, UInt32.toNat_one, Nat.mul_one]
  · rw [Info.bytes, hmem, hsame]

/-- **Unit and value stand for the bytes that the kernel counts**, for every unit that is a power of
    two and where no value is larger than all RAM or all swap space; and the unit is a byte exactly
    when all memory fits into a word, or it was one before. -/
theorem sysinfo_bytes {k : Kernel} (h : k.Parts) {n : Nat} (hunit : k.memUnit.toNat = 2 ^ n) :
    (∀ f, (doSysinfo k).bytes f = (k.mem f).toNat * k.memUnit.toNat) ∧
      ((doSysinfo k).memUnit = 1 ↔ k.total * k.memUnit.toNat < 2 ^ 64 ∨ k.memUnit = 1) := by
  have hlog : 2 ^ k.memUnit.toNat.log2 = k.memUnit.toNat := by rw [hunit, Nat.log2_two_pow]
  refine ⟨doSysinfo_bytes h hunit, ?_⟩
  rcases doSysinfo_cases h with ⟨hfits, hone, -⟩ | ⟨hover, hsame, -⟩
  · rw [hlog] at hfits
    exact ⟨fun _ => .inl hfits, fun _ => hone⟩
  · rw [hlog] at hover
    rw [hsame]
    constructor
    · exact .inr
    · rintro (hlt | hone)
      · omega
      · exact hone

/-- Two gigabytes of RAM, of which one is free, and no swap space. -/
def Kernel.small : Kernel where
  bootSec := 10
  bootNsec := 5
  loads _ := 0
  nrThreads := 100
  mem
    | .totalram => 524288
    | .freeram => 262144
    | _ => 0
  memUnit := 4096

theorem Kernel.small_parts : Kernel.small.Parts := by
  intro f
  cases f <;> decide

theorem sysinfo_bytes_small :
    (doSysinfo .small).bytes .freeram = 1073741824 ∧ (doSysinfo .small).memUnit = 1 := by
  obtain ⟨hbytes, hone⟩ := sysinfo_bytes (n := 12) Kernel.small_parts rfl
  exact ⟨hbytes .freeram, hone.mpr (.inl (by decide))⟩

/-- The counters of `get_ram_stats` and `get_swap_info` are read in the same state. -/
structure SameMemory (k : Kernel) (inf : Stats.Sysinfo) : Prop where
  totalram : inf.totalram = k.mem .totalram
  freeram : inf.freeram = k.mem .freeram
  bufferram : inf.bufferram = k.mem .bufferram
  totalswap : inf.totalswap = k.mem .totalswap
  freeswap : inf.freeswap = k.mem .freeswap
  memUnit : inf.memUnit = k.memUnit

/-- **The figures of the two new system calls are those of `sysinfo`**: `get_ram_stats` in bytes and
    `get_swap_info` in kilobytes, on counters that are possible one by one and as long as the
    kilobytes of the swap space fit into a word. -/
theorem ramStats_sysinfo {k : Kernel} {c : Counters} (hsame : SameMemory k c.sysinfo)
    (hparts : k.Parts) (hbounded : Bounded c) (hfree : k.mem .freeswap ≤ k.mem .totalswap)
    (hswap : (k.mem .totalswap).toNat * 4 < 2 ^ 64) :
    ∃ r, ramStats c = some r ∧ r.total.toNat = (doSysinfo k).bytes .totalram ∧
      r.free.toNat = (doSysinfo k).bytes .freeram ∧
      r.buffers.toNat = (doSysinfo k).bytes .bufferram ∧
      (swapInfo c).total.toNat * 1024 = (doSysinfo k).bytes .totalswap ∧
      (swapInfo c).free.toNat * 1024 = (doSysinfo k).bytes .freeswap := by
  have hunit : k.memUnit.toNat = 4096 := by rw [← hsame.memUnit, hbounded.unit]; rfl
  have hbytes := @doSysinfo_bytes k hparts 12 hunit
  obtain ⟨r, hr, htotal, hfree', hbuffers, -⟩ := ramStats_toNat hbounded
  unfold Counters.total at htotal
  unfold Counters.free at hfree'
  unfold Counters.buffers at hbuffers
  -- two bits to the left are kilobytes
  have hkilo : ∀ x : UInt64, x.toNat * 4 < 2 ^ 64 → (x <<< (PAGE_SHIFT - 10)).toNat = x.toNat * 4 :=
    fun x hx => @toNat_shift x 2 (by decide) hx
  have hle := UInt64.le_iff_toNat_le.mp hfree
  refine ⟨r, hr, ?_, ?_, ?_, ?_, ?_⟩
  · rw [htotal, hbytes, hunit, hsame.totalram]
  · rw [hfree', hbytes, hunit, hsame.freeram]
  · rw [hbuffers, hbytes, hunit, hsame.bufferram]
  · rw [hbytes, hunit, swapInfo, hsame.totalswap, hkilo _ hswap]
    omega
  · rw [hbytes, hunit, swapInfo, hsame.freeswap, hkilo _ (by omega)]
    omega

/-- The counters of the same machine, with file pages on top. -/
def Counters.small : Counters := ⟨⟨524288, 262144, 0, 4096, 0, 0⟩, fun _ => 100000⟩

example : ∃ r, ramStats Counters.small = some r ∧
    r.total.toNat = (doSysinfo .small).bytes .totalram := by
  have hsame : SameMemory .small Counters.small.sysinfo := ⟨rfl, rfl, rfl, rfl, rfl, rfl⟩
  have hbounded : Bounded Counters.small :=
    ⟨rfl, by decide, by decide, by decide, by decide, by decide⟩
  obtain ⟨r, hr, htotal, -⟩ :=
    ramStats_sysinfo hsame Kernel.small_parts hbounded (by decide) (by decide)
  exact ⟨r, hr, htotal⟩

/-! ## Programs of 32 bits -/

/-- The kernel counts in pages. -/
def Kernel.InPages (k : Kernel) : Prop := k.memUnit.toNat = PAGE_SIZE.toNat

theorem growUnit_page {u : UInt32} (h : u.toNat = 4096) : growUnit u = some (u, 0) := by
  have hzero : u ≠ 0 := by
    rintro rfl
    cases h
  have hpage : PAGE_SIZE.toNat = 4096 := rfl
  rw [growUnit, if_neg hzero, if_pos (by omega)]

/-- The loop, by induction on the doublings to come. -/
theorem growUnit_pow {n : Nat} {u : UInt32} (h : u.toNat * 2 ^ n = 4096) :
    ∃ u', u'.toNat = 4096 ∧ growUnit u = some (u', n) := by
  induction n generalizing u with
  | zero => exact ⟨u, by omega, growUnit_page (by omega)⟩
  | succ n ih =>
    have hpow : 1 ≤ 2 ^ n := Nat.one_le_two_pow
    have hsplit : u.toNat * 2 * 2 ^ n = 4096 := by
      rw [← h, Nat.pow_succ, Nat.mul_assoc, Nat.mul_comm 2]
    have hle : u.toNat * 2 * 1 ≤ u.toNat * 2 * 2 ^ n := Nat.mul_le_mul_left _ hpow
    have hshift : (u <<< 1).toNat = u.toNat * 2 := by
      rw [UInt32.toNat_shiftLeft, UInt32.toNat_one, Nat.one_mod, Nat.shiftLeft_eq]
      omega
    obtain ⟨u', hu', hgrow⟩ := ih (hshift ▸ hsplit)
    have hzero : u ≠ 0 := by
      rintro rfl
      simp at h
    have hpage : PAGE_SIZE.toNat = 4096 := rfl
    refine ⟨u', hu', ?_⟩
    rw [growUnit, if_neg hzero, if_neg (by omega), hgrow]
    rfl

theorem toNat_unshift {x : UInt64} {n : Nat} (hn : n < 64) :
    (x >>> n.toUInt64).toNat = x.toNat / 2 ^ n := by
  have hmod : n.toUInt64.toNat % 64 = n := by
    rw [Nat.toUInt64, UInt64.toNat_ofNat']
    omega
  rw [UInt64.toNat_shiftRight, hmod, Nat.shiftRight_eq_div_pow]

theorem upper32Bits_eq_zero (x : UInt64) : upper32Bits x = 0 ↔ x.toNat < 2 ^ 32 := by
  have hshift : (upper32Bits x).toNat = x.toNat / 2 ^ 32 := @toNat_unshift x 32 (by decide)
  rw [← UInt64.toNat_inj, hshift]
  exact Nat.div_eq_zero_iff_lt (by decide)

theorem scaled_small {s : Info} (h : (s.mem .totalram).toNat < 2 ^ 32)
    (h' : (s.mem .totalswap).toNat < 2 ^ 32) : scaled s = some (s.memUnit, 0) := by
  rw [scaled, if_neg]
  rw [not_or, not_not, not_not, upper32Bits_eq_zero, upper32Bits_eq_zero]
  exact ⟨h, h'⟩

theorem scaled_large {s : Info} (h : ¬ ((s.mem .totalram).toNat < 2 ^ 32 ∧
    (s.mem .totalswap).toNat < 2 ^ 32)) : scaled s = growUnit s.memUnit := by
  rw [scaled, if_pos]
  rw [← not_and_or, upper32Bits_eq_zero, upper32Bits_eq_zero]
  exact h

/-- A value of a program of 32 bits. -/
theorem toNat_toCompat (s : Info) {u : UInt32} {n : Nat} (hn : n < 64) (f : Field) :
    ((s.toCompat (u, n)).mem f).toNat = (s.mem f).toNat / 2 ^ n % 2 ^ 32 := by
  rw [Info.toCompat, UInt64.toNat_toUInt32, toNat_unshift hn]

/-- What a program of 32 bits is told: bytes, if all memory fits into its words; pages otherwise. -/
theorem compatSysinfo_cases {k : Kernel} (h : k.Parts) (hpages : k.InPages) :
    ∃ c, compatSysinfo k = some c ∧
      ((c.memUnit = 1 ∧ ∀ f, (c.mem f).toNat = (k.mem f).toNat * 4096 ∧ (k.mem f).toNat < 2 ^ 32) ∨
        (c.memUnit.toNat = 4096 ∧ ∀ f, (c.mem f).toNat = (k.mem f).toNat % 2 ^ 32)) := by
  have hpage : k.memUnit.toNat = 4096 := hpages
  have hlog : k.memUnit.toNat.log2 = 12 := by rw [hpage]; decide
  rcases doSysinfo_cases h with ⟨hfits, hone, hmem⟩ | ⟨hover, hsame, hmem⟩
  · rw [hlog] at hmem
    by_cases hsmall : ((doSysinfo k).mem .totalram).toNat < 2 ^ 32 ∧
        ((doSysinfo k).mem .totalswap).toNat < 2 ^ 32
    · -- bytes, and they fit
      refine ⟨(doSysinfo k).toCompat (1, 0), ?_, .inl ⟨rfl, fun f => ?_⟩⟩
      · rw [compatSysinfo, scaled_small hsmall.1 hsmall.2, hone]
        rfl
      · rw [hmem, hmem] at hsmall
        rw [toNat_toCompat _ (by decide), hmem]
        rcases h f with hle | hle
        · have := UInt64.le_iff_toNat_le.mp hle
          omega
        · have := UInt64.le_iff_toNat_le.mp hle
          omega
    · -- bytes that are turned back into pages
      obtain ⟨u, hu, hgrow⟩ := @growUnit_pow 12 (doSysinfo k).memUnit (by rw [hone]; decide)
      refine ⟨(doSysinfo k).toCompat (u, 12), ?_, .inr ⟨hu, fun f => ?_⟩⟩
      · rw [compatSysinfo, scaled_large hsmall, hgrow]
        rfl
      · rw [toNat_toCompat _ (by decide), hmem, Nat.mul_div_cancel _ (by decide)]
  · -- pages from the start
    have hlarge : ¬ (((doSysinfo k).mem .totalram).toNat < 2 ^ 32 ∧
        ((doSysinfo k).mem .totalswap).toNat < 2 ^ 32) := by
      rw [hlog, Kernel.total] at hover
      rw [hmem]
      omega
    refine ⟨(doSysinfo k).toCompat (k.memUnit, 0), ?_, .inr ⟨hpage, fun f => ?_⟩⟩
    · rw [compatSysinfo, scaled_large hlarge, hsame, growUnit_page hpage]
      rfl
    · rw [toNat_toCompat _ (by decide), hmem, Nat.pow_zero, Nat.div_one]

/-- **A program of 32 bits is told the same bytes** about a value if and only if the value has less
    than `2 ^ 32` pages, which are 16 terabytes; where the kernel counts in pages, and no value is
    larger than all RAM or all swap space. -/
theorem compat_exact_iff {k : Kernel} (h : k.Parts) (hpages : k.InPages) :
    ∃ c, compatSysinfo k = some c ∧ ∀ f,
      ((c.mem f).toNat * c.memUnit.toNat = (doSysinfo k).bytes f ↔ (k.mem f).toNat < 2 ^ 32) := by
  have hpage : k.memUnit.toNat = 2 ^ 12 := hpages
  have hbytes := doSysinfo_bytes h hpage
  obtain ⟨c, hc, ⟨hone, hmem⟩ | ⟨hunit, hmem⟩⟩ := compatSysinfo_cases h hpages
  · refine ⟨c, hc, fun f => ?_⟩
    obtain ⟨hval, hlt⟩ := hmem f
    rw [hbytes f, hval, hone, hpage, UInt32.toNat_one]
    omega
  · refine ⟨c, hc, fun f => ?_⟩
    rw [hbytes f, hmem f, hunit, hpage]
    omega

theorem compat_exact_iff_small : ∃ c, compatSysinfo .small = some c ∧
    (c.mem .totalram).toNat * c.memUnit.toNat = (doSysinfo .small).bytes .totalram := by
  obtain ⟨c, hc, hexact⟩ := compat_exact_iff Kernel.small_parts rfl
  exact ⟨c, hc, (hexact .totalram).mpr (by decide)⟩

end UsacSyscalls.Sys.Sysinfo
