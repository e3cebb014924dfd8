import UsacSyscalls.Stats.Calls

/-!
# The RAM figures

`get_ram_stats` subtracts four counters, read one after another, from each other in 64-bit
arithmetic; none of the subtractions is guarded.

* `Bounded`, `Snapshot` — counters of which each alone is possible, and whose total does not
  overflow.
* `ramStats_toNat` — the printed figures as numbers: the subtraction of the buffers cancels out of
  the used memory, so there is one condition for each of the two differences.
* `accountingHolds_iff` — no figure exceeds the total exactly on the snapshots on which neither
  difference is negative; there the figures add up.
-/

set_option autoImplicit false

namespace UsacSyscalls.Stats

/-! ## The counters as numbers -/

def Counters.total (k : Counters) : Nat := k.sysinfo.totalram.toNat
def Counters.free (k : Counters) : Nat := k.sysinfo.freeram.toNat
def Counters.buffers (k : Counters) : Nat := k.sysinfo.bufferram.toNat
def Counters.filePages (k : Counters) : Nat := (k.globalNodePageState .NR_FILE_PAGES).toNat

/-- Each counter alone is possible: none exceeds the total, which can be told in bytes. -/
structure Bounded (k : Counters) : Prop where
  unit : k.sysinfo.memUnit = 4096
  positive : 0 < k.total
  free_le : k.free ≤ k.total
  buffers_le : k.buffers ≤ k.total
  filePages_le : k.filePages ≤ k.total
  fits : k.total * 4096 < 2 ^ 64

/-- The percentage of the total can be computed, too. -/
structure Snapshot (k : Counters) : Prop extends Bounded k where
  noOverflow : k.total * 4096 * 100 < 2 ^ 64

/-- Neither the cache nor the used memory comes out negative. -/
structure InOrder (k : Counters) : Prop where
  cache : k.buffers ≤ k.filePages
  used : k.free + k.filePages ≤ k.total

variable {k : Counters}

/-- The difference of two page counts in bytes, as 64-bit arithmetic computes it. -/
def pagesLeft (a b : Nat) : Nat := if b ≤ a then (a - b) * 4096 else 2 ^ 64 - (b - a) * 4096

/-! ## The figures as numbers -/

theorem Bounded.unit_eq (h : Bounded k) : k.sysinfo.memUnit.toUInt64 = 4096 := by
  rw [h.unit]
  rfl

/-- The total as the call computes it. -/
theorem Bounded.total_toNat (h : Bounded k) :
    (k.sysinfo.totalram * 4096).toNat = k.total * 4096 := by
  have hmax := h.fits
  have h4096 : (4096 : UInt64).toNat = 4096 := rfl
  unfold Counters.total at *
  rw [UInt64.toNat_mul, h4096]
  omega

theorem Bounded.total_ne_zero (h : Bounded k) : k.sysinfo.totalram * 4096 ≠ 0 := by
  have hpos := h.positive
  have htotal := h.total_toNat
  intro h0
  have hzero : (0 : UInt64).toNat = 0 := rfl
  rw [h0, hzero] at htotal
  omega

/-- A counter that does not exceed the total, in bytes. -/
theorem Bounded.bytes_toNat (h : Bounded k) {x : UInt64} (hx : x.toNat ≤ k.total) :
    (x * 4096).toNat = x.toNat * 4096 := by
  have hmax := h.fits
  have h4096 : (4096 : UInt64).toNat = 4096 := rfl
  rw [UInt64.toNat_mul, h4096]
  omega

theorem Bounded.cache_toNat (h : Bounded k) :
    ((k.globalNodePageState .NR_FILE_PAGES - k.sysinfo.bufferram) * 4096).toNat =
      pagesLeft k.filePages k.buffers := by
  have hbuffers := h.buffers_le
  have hfile := h.filePages_le
  have hmax := h.fits
  have h4096 : (4096 : UInt64).toNat = 4096 := rfl
  unfold Counters.filePages Counters.buffers at *
  unfold pagesLeft
  rw [UInt64.toNat_mul, UInt64.toNat_sub, h4096]
  split <;> omega

/-- The buffers are subtracted twice and come back once with the cache. -/
theorem Bounded.used_toNat (h : Bounded k) {cached : UInt64}
    (hcached : cached.toNat = pagesLeft k.filePages k.buffers) :
    ((k.sysinfo.totalram - k.sysinfo.freeram - k.sysinfo.bufferram - cached / 4096) * 4096).toNat =
      pagesLeft k.total (k.free + k.filePages) := by
  have hfree := h.free_le
  have hbuffers := h.buffers_le
  have hfile := h.filePages_le
  have hmax := h.fits
  have h4096 : (4096 : UInt64).toNat = 4096 := rfl
  have hpages : (cached / 4096).toNat =
      if k.buffers ≤ k.filePages then k.filePages - k.buffers
      else 2 ^ 52 - (k.buffers - k.filePages) := by
    rw [UInt64.toNat_div, h4096, hcached]
    unfold pagesLeft
    split <;> omega
  rw [UInt64.toNat_mul, UInt64.toNat_sub, UInt64.toNat_sub, UInt64.toNat_sub, h4096, hpages]
  unfold Counters.total Counters.free Counters.buffers at *
  unfold pagesLeft
  split <;> split <;> omega

/-- **The printed figures.** -/
theorem ramStats_toNat (h : Bounded k) : ∃ r, ramStats k = some r ∧
    r.total.toNat = k.total * 4096 ∧ r.free.toNat = k.free * 4096 ∧
    r.buffers.toNat = k.buffers * 4096 ∧ r.cache.toNat = pagesLeft k.filePages k.buffers ∧
    r.used.toNat = pagesLeft k.total (k.free + k.filePages) ∧
    r.percentageUsed.toNat = r.used.toNat * 100 % 2 ^ 64 / r.total.toNat := by
  have hsome : ramStats k = some ⟨k.sysinfo.totalram * 4096,
      (k.sysinfo.totalram - k.sysinfo.freeram - k.sysinfo.bufferram -
        (k.globalNodePageState .NR_FILE_PAGES - k.sysinfo.bufferram) * 4096 / 4096) * 4096,
      k.sysinfo.freeram * 4096,
      (k.globalNodePageState .NR_FILE_PAGES - k.sysinfo.bufferram) * 4096,
      k.sysinfo.bufferram * 4096,
      (k.sysinfo.totalram - k.sysinfo.freeram - k.sysinfo.bufferram -
        (k.globalNodePageState .NR_FILE_PAGES - k.sysinfo.bufferram) * 4096 / 4096) * 4096 * 100 /
          (k.sysinfo.totalram * 4096)⟩ := by
    unfold ramStats
    simp only [h.unit_eq, PAGE_SIZE]
    refine if_neg ?_
    rintro (h0 | h0)
    · exact absurd h0 (by decide)
    · exact h.total_ne_zero h0
  refine ⟨_, hsome, h.total_toNat, h.bytes_toNat h.free_le, h.bytes_toNat h.buffers_le, h.cache_toNat,
    h.used_toNat h.cache_toNat, ?_⟩
  have h100 : (100 : UInt64).toNat = 100 := rfl
  show (_ * 100 / _ : UInt64).toNat = _
  rw [UInt64.toNat_div, UInt64.toNat_mul, h100]

/-! ## When the figures are in order -/

/-- A difference fits below the total iff it is not negative. -/
theorem Snapshot.pagesLeft_le_iff (h : Snapshot k) {a b : Nat} (ha : a ≤ k.total)
    (hb : b ≤ 2 * k.total) : pagesLeft a b ≤ k.total * 4096 ↔ b ≤ a := by
  have hmax := h.noOverflow
  unfold pagesLeft
  split <;> omega

/-- No figure exceeds the total. -/
structure Sane (r : RamStats) : Prop where
  used : r.used ≤ r.total
  cache : r.cache ≤ r.total
  percentage : r.percentageUsed ≤ 100

/-- The figures add up, and the percentage is that of the used memory. -/
structure Exact (r : RamStats) : Prop where
  sum : r.used.toNat + r.free.toNat + r.cache.toNat + r.buffers.toNat = r.total.toNat
  percentage : r.percentageUsed.toNat = 100 * r.used.toNat / r.total.toNat

/-- What the accounting promises on a snapshot. -/
def AccountingHolds (k : Counters) : Prop :=
  ∃ r, ramStats k = some r ∧ Sane r ∧ (InOrder k → Exact r)

theorem percentage_le {used total : Nat} (h : used ≤ total) : used * 100 / total ≤ 100 := by
  refine Nat.div_le_of_le_mul ?_
  rw [Nat.mul_comm]
  exact Nat.mul_le_mul_left 100 h |>.trans (Nat.le_of_eq (Nat.mul_comm 100 total))

/-- **RAM accounting does not wrap** exactly on the snapshots whose buffers are part of the file
    pages and whose free and file pages are part of the total. -/
theorem accountingHolds_iff (k : Counters) (h : Snapshot k) : AccountingHolds k ↔ InOrder k := by
  obtain ⟨r, hsome, htotal, hfree, hbuffers, hcache, hused, hpercentage⟩ := ramStats_toNat h.toBounded
  have hmax := h.noOverflow
  have hfile := h.filePages_le
  have hfreele := h.free_le
  have hcacheIff := h.pagesLeft_le_iff hfile (by have := h.buffers_le; omega : k.buffers ≤ _)
  have husedIff := h.pagesLeft_le_iff (Nat.le_refl _)
    (by omega : k.free + k.filePages ≤ 2 * k.total)
  constructor
  · rintro ⟨r', hsome', hsane, -⟩
    rw [hsome] at hsome'
    cases hsome'
    have hu := UInt64.le_iff_toNat_le.mp hsane.used
    have hc := UInt64.le_iff_toNat_le.mp hsane.cache
    rw [hused, htotal] at hu
    rw [hcache, htotal] at hc
    exact ⟨hcacheIff.mp hc, husedIff.mp hu⟩
  · intro hin
    have hu : r.used.toNat ≤ r.total.toNat := by
      rw [hused, htotal]; exact husedIff.mpr hin.used
    have hc : r.cache.toNat ≤ r.total.toNat := by
      rw [hcache, htotal]; exact hcacheIff.mpr hin.cache
    have hsmall : r.used.toNat * 100 < 2 ^ 64 := by omega
    rw [Nat.mod_eq_of_lt hsmall] at hpercentage
    refine ⟨r, hsome, ⟨UInt64.le_iff_toNat_le.mpr hu, UInt64.le_iff_toNat_le.mpr hc, ?_⟩,
      fun _ => ⟨?_, by rw [hpercentage, Nat.mul_comm]⟩⟩
    · refine UInt64.le_iff_toNat_le.mpr ?_
      rw [hpercentage]
      exact percentage_le hu
    · have h1 := hin.cache
      have h2 := hin.used
      rw [hused, hfree, hcache, hbuffers, htotal, pagesLeft, pagesLeft, if_pos h1, if_pos h2]
      omega

/-- Counters in which the buffers are not part of the file pages. -/
def tornCounters : Counters where
  sysinfo := ⟨1000, 500, 10, 4096, 0, 0⟩
  globalNodePageState item := if item = .NR_FILE_PAGES then 5 else 0

theorem snapshot_tornCounters : Snapshot tornCounters :=
  ⟨⟨rfl, by decide, by decide, by decide, by decide, by decide⟩, by decide⟩

/-- Ten pages of buffers but five file pages: the cache is close to `2 ^ 64` bytes. -/
theorem not_accountingHolds_torn : ¬ AccountingHolds tornCounters := by
  rintro ⟨r, hr, hsane, -⟩
  obtain ⟨r', hr', htotal, -, -, hcache, -⟩ := ramStats_toNat snapshot_tornCounters.toBounded
  rw [hr] at hr'
  cases hr'
  have hc := UInt64.le_iff_toNat_le.mp hsane.cache
  rw [hcache, htotal] at hc
  exact absurd hc (by decide)

/-- Counters as a running machine has them. -/
def soundCounters : Counters where
  sysinfo := ⟨1000, 500, 10, 4096, 0, 0⟩
  globalNodePageState item := if item = .NR_FILE_PAGES then 200 else 0

theorem accountingHolds_sound : AccountingHolds soundCounters :=
  (accountingHolds_iff soundCounters
    ⟨⟨rfl, by decide, by decide, by decide, by decide, by decide⟩, by decide⟩).mpr ⟨by decide, by decide⟩

end UsacSyscalls.Stats
