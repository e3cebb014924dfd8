import UsacSyscalls.Stats.Accounting

/-!
# The RAM report of the kernel module

Reference model of `ram_stats_init` of `pruebas/ram_stats_module.c`, the prototype of
`get_ram_stats`: it reads the same counters, takes all file pages for the cache and subtracts the
buffers once more.

* `ramStatsInit_eq` — the report is printed in full.
* `moduleStats_toNat` — the printed figures as numbers, on counters on which nothing wraps.
* `reportsAgree_iff` — the two reports show the same figures exactly when there are no buffers.
-/

set_option autoImplicit false

namespace UsacSyscalls.Stats

open Lib.CString Lib.Format

/-! ## The module -/

def RAM_STATS_MODULE_FORMAT : String :=
  "RAM stats:\n" ++
  "  Total: %lu KB\n" ++
  "  Used: %lu KB\n" ++
  "  Free: %lu KB\n" ++
  "  Cache: %lu KB\n" ++
  "  Buffers: %lu KB\n" ++
  "  Percentage Used: %lu%%\n"

/-- The arithmetic of `ram_stats_init`; `none` is a division by zero. -/
def moduleStats (k : Counters) : Option RamStats :=
  let inf := k.sysinfo
  let unit := inf.memUnit.toUInt64
  let totalMem := inf.totalram * unit
  let freeMem := inf.freeram * unit
  let buffersMem := inf.bufferram * unit
  let cacheMem := k.globalNodePageState .NR_FILE_PAGES * PAGE_SIZE
  let usedMem := totalMem - freeMem - cacheMem - buffersMem
  if totalMem = 0 then none
  else
    some {
      total := totalMem / 1024
      used := usedMem / 1024
      free := freeMem / 1024
      cache := cacheMem / 1024
      buffers := buffersMem / 1024
      percentageUsed := usedMem * 100 / totalMem }

/-- The numbers in the order in which both reports print them. -/
def RamStats.numbers (r : RamStats) : List UInt64 :=
  [r.total, r.used, r.free, r.cache, r.buffers, r.percentageUsed]

/-- What `printk` writes to the log, from a local array with any prior contents. -/
def ramStatsInit (k : Counters) (buffer : Buffer 256) : Option Bytes :=
  (moduleStats k).map fun r =>
    cString (snprintf buffer.val 0 (statsText RAM_STATS_MODULE_FORMAT r.numbers)) ++ bytes "\n"

theorem shape_moduleFormat : shape (format RAM_STATS_MODULE_FORMAT) = some (6, 97) := by
  decide +kernel

/-- **The report is not cut off**: the log gets all of the text. -/
theorem ramStatsInit_eq (k : Counters) (buffer : Buffer 256) :
    ramStatsInit k buffer =
      (moduleStats k).map fun r =>
        statsText RAM_STATS_MODULE_FORMAT r.numbers ++ bytes "\n" := by
  unfold ramStatsInit
  refine congrArg (Option.map · (moduleStats k)) (funext fun r => ?_)
  have hcounted : shape (format RAM_STATS_MODULE_FORMAT) = some (r.numbers.length, 97) := by
    rw [shape_moduleFormat]
    rfl
  have hshape := printf_of_shape hcounted
  have hdigits := digits_le r.numbers
  have hcount : r.numbers.length = 6 := rfl
  have hlength := hshape.1
  have hbuffer := buffer.property
  unfold statsText
  rw [(holds_snprintf_zero _ (by omega) hshape.2).cString_eq, List.take_of_length_le (by omega)]

/-! ## The figures as numbers -/

/-- Counters on which neither report wraps, and on which the percentages do not overflow. -/
structure NoWrap (k : Counters) : Prop where
  unit : k.sysinfo.memUnit = 4096
  positive : 0 < k.total
  cache : k.buffers ≤ k.filePages
  used : k.free + k.filePages + k.buffers ≤ k.total
  fits : k.total * 4096 < 2 ^ 64
  percentage : (k.total - k.free - k.filePages) * 4096 * 100 < 2 ^ 64

variable {k : Counters}

theorem NoWrap.bounded (h : NoWrap k) : Bounded k := by
  have hused := h.used
  exact ⟨h.unit, h.positive, by omega, by omega, by omega, h.fits⟩

/-- **The module's figures**: the buffers are subtracted although they are part of the file
    pages. -/
theorem moduleStats_toNat (h : NoWrap k) : ∃ m, moduleStats k = some m ∧
    m.total.toNat = k.total * 4 ∧ m.used.toNat = (k.total - k.free - k.filePages - k.buffers) * 4 ∧
    m.free.toNat = k.free * 4 ∧ m.cache.toNat = k.filePages * 4 ∧
    m.buffers.toNat = k.buffers * 4 ∧
    m.percentageUsed.toNat =
      (k.total - k.free - k.filePages - k.buffers) * 4096 * 100 / (k.total * 4096) := by
  have hb := h.bounded
  have hused := h.used
  have hfits := h.fits
  have hpercentage := h.percentage
  have htotal := hb.total_toNat
  have hfree := hb.bytes_toNat hb.free_le
  have hbuffers := hb.bytes_toNat hb.buffers_le
  have hcache := hb.bytes_toNat hb.filePages_le
  have h1024 : (1024 : UInt64).toNat = 1024 := rfl
  have h100 : (100 : UInt64).toNat = 100 := rfl
  have hleft : (k.sysinfo.totalram * 4096 - k.sysinfo.freeram * 4096 -
      k.globalNodePageState .NR_FILE_PAGES * 4096 - k.sysinfo.bufferram * 4096).toNat =
        (k.total - k.free - k.filePages - k.buffers) * 4096 := by
    unfold Counters.free Counters.buffers Counters.filePages at *
    rw [UInt64.toNat_sub, UInt64.toNat_sub, UInt64.toNat_sub, htotal, hfree, hcache, hbuffers]
    omega
  unfold moduleStats
  simp only [hb.unit_eq, PAGE_SIZE, if_neg hb.total_ne_zero]
  refine ⟨_, rfl, ?_, ?_, ?_, ?_, ?_, ?_⟩
  · show (_ / 1024 : UInt64).toNat = _
    rw [UInt64.toNat_div, htotal, h1024]
    omega
  · show (_ / 1024 : UInt64).toNat = _
    rw [UInt64.toNat_div, hleft, h1024]
    omega
  · show (_ / 1024 : UInt64).toNat = _
    rw [UInt64.toNat_div, hfree, h1024, Counters.free]
    omega
  · show (_ / 1024 : UInt64).toNat = _
    rw [UInt64.toNat_div, hcache, h1024, Counters.filePages]
    omega
  · show (_ / 1024 : UInt64).toNat = _
    rw [UInt64.toNat_div, hbuffers, h1024, Counters.buffers]
    omega
  · have hsmall : (k.total - k.free - k.filePages - k.buffers) * 4096 * 100 < 2 ^ 64 :=
      Nat.lt_of_le_of_lt
        (Nat.mul_le_mul_right 100 (Nat.mul_le_mul_right 4096 (Nat.sub_le _ _))) hpercentage
    show (_ * 100 / _ : UInt64).toNat = _
    rw [UInt64.toNat_div, UInt64.toNat_mul, hleft, htotal, h100, Nat.mod_eq_of_lt hsmall]

/-- The figures of the system call on the same counters. -/
theorem NoWrap.ramStats_toNat (h : NoWrap k) : ∃ r, ramStats k = some r ∧
    r.total.toNat = k.total * 4096 ∧ r.free.toNat = k.free * 4096 ∧
    r.buffers.toNat = k.buffers * 4096 ∧ r.cache.toNat = (k.filePages - k.buffers) * 4096 ∧
    r.used.toNat = (k.total - k.free - k.filePages) * 4096 ∧
    r.percentageUsed.toNat =
      (k.total - k.free - k.filePages) * 4096 * 100 / (k.total * 4096) := by
  have hused := h.used
  obtain ⟨r, hr, htotal, hfree, hbuffers, hcache, hleft, hpercentage⟩ :=
    Stats.ramStats_toNat h.bounded
  rw [pagesLeft, if_pos h.cache] at hcache
  rw [pagesLeft, if_pos (by omega), Nat.sub_add_eq] at hleft
  rw [hleft, htotal, Nat.mod_eq_of_lt h.percentage] at hpercentage
  exact ⟨r, hr, htotal, hfree, hbuffers, hcache, hleft, hpercentage⟩

/-! ## The two reports -/

/-- The figures of the system call in the module's unit. -/
def RamStats.inKB (r : RamStats) : RamStats :=
  { r with
    total := r.total / 1024
    used := r.used / 1024
    free := r.free / 1024
    cache := r.cache / 1024
    buffers := r.buffers / 1024 }

/-- Both reports exist and show the same figures. -/
def ReportsAgree (k : Counters) : Prop :=
  ∃ m r, moduleStats k = some m ∧ ramStats k = some r ∧
    m.used = r.inKB.used ∧ m.free = r.inKB.free ∧ m.cache = r.inKB.cache ∧
    m.buffers = r.inKB.buffers ∧ m.percentageUsed = r.inKB.percentageUsed

theorem kB_toNat {x : UInt64} {n : Nat} (h : x.toNat = n * 4096) : (x / 1024).toNat = n * 4 := by
  have h1024 : (1024 : UInt64).toNat = 1024 := rfl
  rw [UInt64.toNat_div, h, h1024]
  omega

/-- **How the reports differ**: the module shows the buffers once more in the cache and once less
    in the used memory. -/
theorem reports_differ (h : NoWrap k) : ∃ m r, moduleStats k = some m ∧ ramStats k = some r ∧
    m.free = r.inKB.free ∧ m.buffers = r.inKB.buffers ∧
    m.cache.toNat = r.inKB.cache.toNat + m.buffers.toNat ∧
    m.used.toNat + m.buffers.toNat = r.inKB.used.toNat ∧
    m.percentageUsed.toNat = m.used.toNat * 100 / m.total.toNat ∧
    r.percentageUsed.toNat = r.used.toNat * 100 / r.total.toNat := by
  have hcacheLe := h.cache
  have husedLe := h.used
  obtain ⟨m, hm, htotal, hused, hfree, hcache, hbuffers, hpercentage⟩ := moduleStats_toNat h
  obtain ⟨r, hr, htotal', hfree', hbuffers', hcache', hused', hpercentage'⟩ := h.ramStats_toNat
  refine ⟨m, r, hm, hr, ?_, ?_, ?_, ?_, ?_, ?_⟩
  · apply UInt64.toNat_inj.mp
    show _ = (r.free / 1024).toNat
    rw [hfree, kB_toNat hfree']
  · apply UInt64.toNat_inj.mp
    show _ = (r.buffers / 1024).toNat
    rw [hbuffers, kB_toNat hbuffers']
  · show _ = (r.cache / 1024).toNat + _
    rw [hcache, kB_toNat hcache', hbuffers]
    omega
  · show _ = (r.used / 1024).toNat
    rw [hused, kB_toNat hused', hbuffers]
    omega
  · have hscale : ∀ n, n * 4096 = 1024 * (n * 4) := fun n => by omega
    rw [hpercentage, hused, htotal, hscale, hscale, Nat.mul_assoc 1024,
      Nat.mul_div_mul_left _ _ (by decide)]
  · rw [hpercentage', hused', htotal']

/-- **The reports agree** exactly on the counters without buffers. -/
theorem reportsAgree_iff (k : Counters) (h : NoWrap k) : ReportsAgree k ↔ k.buffers = 0 := by
  obtain ⟨m₀, hm₀, -, -, -, -, hbuffers, hpercentage⟩ := moduleStats_toNat h
  obtain ⟨r₀, hr₀, -, -, -, -, -, hpercentage'⟩ := h.ramStats_toNat
  obtain ⟨m, r, hm, hr, hfree, hbuffersEq, hcache, hused, -, -⟩ := reports_differ h
  rw [hm₀, Option.some.injEq] at hm
  rw [hr₀, Option.some.injEq] at hr
  subst hm hr
  constructor
  · rintro ⟨m', r', hm', hr', husedEq, -⟩
    rw [hm₀, Option.some.injEq] at hm'
    rw [hr₀, Option.some.injEq] at hr'
    subst hm' hr'
    rw [husedEq, hbuffers] at hused
    omega
  · intro hzero
    rw [hzero] at hbuffers
    refine ⟨m₀, r₀, hm₀, hr₀, ?_, hfree, ?_, hbuffersEq, ?_⟩
    · apply UInt64.toNat_inj.mp
      omega
    · apply UInt64.toNat_inj.mp
      omega
    · apply UInt64.toNat_inj.mp
      show _ = r₀.percentageUsed.toNat
      rw [hpercentage, hpercentage', hzero, Nat.sub_zero]

/-- A machine with fifty pages of buffers. -/
def bufferedCounters : Counters where
  sysinfo := ⟨1000, 100, 50, 4096, 0, 0⟩
  globalNodePageState item := if item = .NR_FILE_PAGES then 200 else 0

theorem noWrap_bufferedCounters : NoWrap bufferedCounters :=
  ⟨rfl, by decide, by decide, by decide, by decide, by decide⟩

/-- The module reports 2600 KB of used memory, the system call 2800 KB. -/
theorem not_reportsAgree_buffered : ¬ ReportsAgree bufferedCounters := by
  rintro ⟨m, r, hm, hr, hused, -⟩
  obtain ⟨m', r', hm', hr', -, hbuffers, -, hdiff, -⟩ := reports_differ noWrap_bufferedCounters
  obtain ⟨m'', hm'', -, -, -, -, hfifty, -⟩ := moduleStats_toNat noWrap_bufferedCounters
  rw [hm, Option.some.injEq] at hm' hm''
  rw [hr, Option.some.injEq] at hr'
  subst hm' hm'' hr'
  have hvalue : bufferedCounters.buffers = 50 := by decide
  rw [hused, hfifty, hvalue] at hdiff
  omega

/-- The same machine without buffers. -/
def unbufferedCounters : Counters where
  sysinfo := ⟨1000, 100, 0, 4096, 0, 0⟩
  globalNodePageState item := if item = .NR_FILE_PAGES then 200 else 0

theorem reportsAgree_unbuffered : ReportsAgree unbufferedCounters :=
  (reportsAgree_iff unbufferedCounters
    ⟨rfl, by decide, by decide, by decide, by decide, by decide⟩).mpr (by decide)

end UsacSyscalls.Stats
