import Mathlib.Algebra.Order.BigOperators.Group.List
import Mathlib.Algebra.Order.Group.Nat
import UsacSyscalls.Procs.TopFive

/-!
# The CPU percentages

`obtener_info_procesos` divides nanoseconds of CPU time, times 100, by the uptime in whole
seconds.

* `sum_floors_le` — percentages that are rounded down add up to no more than 100 for each processor.
* `percentages_iff` — the quotient is the percentage of the uptime, and is defined, only for
  processes with next to no CPU time, for which both are 0.
-/

set_option autoImplicit false

namespace UsacSyscalls.Procs

/-- The CPU time of a process in nanoseconds. -/
def Task.cpuTime (task : Task) : Nat := task.utime.toNat + task.stime.toNat

/-- The processes have used no more CPU time than `ncpu` processors have had since the start, and
    no product wraps. -/
structure WithinUptime (m : Machine) (table : List Task) (ncpu : Nat) : Prop where
  up : 0 < m.totalTimeNs.toNat
  small : ∀ task ∈ table, 100 * task.cpuTime < 2 ^ 64
  total : (table.map Task.cpuTime).sum ≤ ncpu * m.totalTimeNs.toNat

/-- The percentage of the uptime that a process has used, rounded down. -/
def percentage (m : Machine) (task : Task) : Nat := 100 * task.cpuTime / m.totalTimeNs.toNat

/-- The collection does not divide by zero, and every process that it collects is stored with its
    percentage; the percentages add up to at most 100 for each processor. -/
def Percentages (m : Machine) (table : List Task) (ncpu : Nat) : Prop :=
  ∃ result, obtenerInfoProcesos m table = some result ∧ ∀ procs, result = .ok procs →
    procs.map (fun p => p.cpuPercentage.toNat) =
        ((users table).take MAX_PROCS).map (fun u => percentage m u.1) ∧
      (procs.map fun p => p.cpuPercentage.toNat).sum ≤ 100 * ncpu

/-! ## The quotients -/

/-- Dividing by the `k`-th part of a number instead of the number makes a difference unless both
    quotients are 0. -/
theorem div_div_eq_iff {a n k : Nat} (hk : 1 < k) (hpos : 0 < n / k) :
    a / (n / k) = a / n ↔ a < n / k := by
  have hmul : n / k * k ≤ n := Nat.div_mul_le_self n k
  have hle : n / k ≤ n := Nat.div_le_self n k
  constructor
  · intro heq
    by_contra hge
    have hquot : 0 < a / (n / k) := Nat.div_pos (Nat.not_lt.mp hge) hpos
    have hsmall : a / n ≤ a / (n / k) / k := by
      rw [Nat.div_div_eq_div_mul]
      exact Nat.div_le_div_left hmul (Nat.mul_pos hpos (by omega))
    have hlt : a / (n / k) / k < a / (n / k) := Nat.div_lt_self hquot hk
    omega
  · intro hlt
    rw [Nat.div_eq_of_lt hlt, Nat.div_eq_of_lt (Nat.lt_of_lt_of_le hlt hle)]

theorem sum_floors_le (n : Nat) (ts : List Nat) :
    (ts.map fun t => 100 * t / n).sum ≤ 100 * ts.sum / n := by
  induction ts with
  | nil => exact Nat.zero_le _
  | cons t ts ih =>
    have hadd : 100 * t / n + 100 * ts.sum / n ≤ (100 * t + 100 * ts.sum) / n :=
      Nat.div_add_div_le_add_div
    rw [List.map_cons, List.sum_cons, List.sum_cons, Nat.mul_add]
    omega

section Table

variable {m : Machine} {table : List Task} {ncpu : Nat}

theorem users_sublist : ∀ table : List Task, ((users table).map Prod.fst).Sublist table
  | [] => List.Sublist.slnil
  | task :: table => by
    have ih := users_sublist table
    unfold users at ih ⊢
    rw [List.filterMap_cons]
    cases task.mm with
    | none => exact ih.cons task
    | some pages => exact ih.cons_cons task

theorem collected_sublist (table : List Task) :
    (((users table).take MAX_PROCS).map Prod.fst).Sublist table :=
  ((List.take_sublist _ _).map Prod.fst).trans (users_sublist table)

theorem mem_of_mem_users {u : Task × UInt64} (h : u ∈ (users table).take MAX_PROCS) :
    u.1 ∈ table :=
  (collected_sublist table).subset (List.mem_map_of_mem h)

/-- The processes that are collected are some of the table, so their percentages stay within what
    all of them have used. -/
theorem WithinUptime.sum_le (h : WithinUptime m table ncpu) :
    (((users table).take MAX_PROCS).map fun u => percentage m u.1).sum ≤ 100 * ncpu := by
  obtain ⟨times, htimes⟩ : ∃ times, times =
    (((users table).take MAX_PROCS).map Prod.fst).map Task.cpuTime := ⟨_, rfl⟩
  have hsub : times.Sublist (table.map Task.cpuTime) := by
    rw [htimes]
    exact (collected_sublist table).map Task.cpuTime
  have hsum : times.sum ≤ ncpu * m.totalTimeNs.toNat :=
    (hsub.sum_le_sum fun _ _ => Nat.zero_le _).trans h.total
  have hmap : (((users table).take MAX_PROCS).map fun u => percentage m u.1) =
      times.map fun t => 100 * t / m.totalTimeNs.toNat := by
    rw [htimes, List.map_map, List.map_map]
    rfl
  calc (((users table).take MAX_PROCS).map fun u => percentage m u.1).sum
      = (times.map fun t => 100 * t / m.totalTimeNs.toNat).sum := by rw [hmap]
    _ ≤ 100 * times.sum / m.totalTimeNs.toNat := sum_floors_le _ _
    _ ≤ 100 * (ncpu * m.totalTimeNs.toNat) / m.totalTimeNs.toNat :=
        Nat.div_le_div_right (Nat.mul_le_mul_left 100 hsum)
    _ = 100 * ncpu := by rw [← Nat.mul_assoc, Nat.mul_div_cancel _ h.up]

/-- The quotient that is stored. -/
theorem WithinUptime.stored (h : WithinUptime m table ncpu) {task : Task} (htask : task ∈ table)
    (pages : UInt64) :
    (procInfo m task pages).cpuPercentage.toNat =
      100 * task.cpuTime / (m.totalTimeNs.toNat / 1000000000) := by
  have hsmall := h.small task htask
  unfold Task.cpuTime at hsmall ⊢
  have hsum : (task.utime + task.stime).toNat = task.utime.toNat + task.stime.toNat := by
    rw [UInt64.toNat_add]
    omega
  have hprod : ((task.utime + task.stime) * 100).toNat =
      100 * (task.utime.toNat + task.stime.toNat) := by
    rw [UInt64.toNat_mul, hsum]
    show _ * 100 % 2 ^ 64 = _
    omega
  show (((task.utime + task.stime) * 100) / (m.totalTimeNs / 1000000000)).toNat = _
  rw [UInt64.toNat_div, UInt64.toNat_div, hprod]
  rfl

/-- What is stored for a process is its percentage only if both are 0. -/
theorem WithinUptime.stored_eq_iff (h : WithinUptime m table ncpu) {task : Task}
    (htask : task ∈ table) (pages : UInt64) (hpos : 0 < m.totalTimeNs.toNat / 1000000000) :
    (procInfo m task pages).cpuPercentage.toNat = percentage m task ↔
      100 * task.cpuTime < m.totalTimeNs.toNat / 1000000000 := by
  rw [h.stored htask]
  exact div_div_eq_iff (by decide) hpos

/-- **The percentages are right** iff every process that is collected has so little CPU time that
    its percentage is 0, also with the uptime in seconds for nanoseconds. -/
theorem percentages_iff (m : Machine) (table : List Task) (ncpu : Nat)
    (h : WithinUptime m table ncpu) :
    Percentages m table ncpu ↔ (m.kmallocArray = true → ∀ u ∈ (users table).take MAX_PROCS,
      100 * u.1.cpuTime < m.totalTimeNs.toNat / 1000000000) := by
  have hseconds : (m.totalTimeNs / 1000000000).toNat = m.totalTimeNs.toNat / 1000000000 := by
    rw [UInt64.toNat_div]
    rfl
  unfold Percentages
  rcases obtener_cases m table with ⟨hfalse, herror⟩ | ⟨⟨harray, hzero, husers⟩, hnone⟩ |
    ⟨harray, hdiv, hok⟩
  · refine iff_of_true ⟨_, herror, fun procs hprocs => ?_⟩ fun htrue => ?_
    · cases hprocs
    · rw [hfalse] at htrue
      cases htrue
  · rw [hnone]
    refine iff_of_false (fun ⟨_, h, _⟩ => by cases h) fun hcond => ?_
    -- the first process that is visited has divided by zero
    obtain ⟨u, us, hus⟩ := List.exists_cons_of_ne_nil husers
    have hmem : u ∈ (users table).take MAX_PROCS := by
      rw [hus]
      exact List.mem_cons_self
    have hlt := hcond harray u hmem
    rw [← hseconds, hzero] at hlt
    exact Nat.not_lt_zero _ hlt
  · have hmap : (collected m table).map (fun p => p.cpuPercentage.toNat) =
        ((users table).take MAX_PROCS).map
          fun u => (procInfo m u.1 u.2).cpuPercentage.toNat := by
      rw [collected, ← List.map_take, List.map_map]
      rfl
    have hpos : ∀ u ∈ (users table).take MAX_PROCS, 0 < m.totalTimeNs.toNat / 1000000000 := by
      intro u hu
      rw [← hseconds, Nat.pos_iff_ne_zero]
      intro hzero
      refine hdiv ⟨harray, UInt64.toNat_inj.mp hzero, fun hnil => ?_⟩
      rw [hnil] at hu
      cases hu
    rw [hok]
    constructor
    · rintro ⟨result, heq, hall⟩ - u hu
      cases heq
      obtain ⟨hstored, -⟩ := hall _ rfl
      rw [hmap, List.map_inj_left] at hstored
      exact (h.stored_eq_iff (mem_of_mem_users hu) u.2 (hpos u hu)).mp (hstored u hu)
    · intro hcond
      have hstored : (collected m table).map (fun p => p.cpuPercentage.toNat) =
          ((users table).take MAX_PROCS).map fun u => percentage m u.1 := by
        rw [hmap, List.map_inj_left]
        intro u hu
        exact (h.stored_eq_iff (mem_of_mem_users hu) u.2 (hpos u hu)).mpr (hcond harray u hu)
      refine ⟨_, rfl, fun procs hprocs => ?_⟩
      cases hprocs
      refine ⟨hstored, ?_⟩
      rw [hstored]
      exact h.sum_le

end Table

/-- A process that has run for a few nanoseconds. -/
def briefTask (pid : Int32) (utime : UInt64) : Task :=
  { Task.ofPages pid 1 with utime := utime, stime := 2 }

/-- Two of them. -/
theorem percentages_brief : Percentages .ideal [briefTask 1 3, briefTask 2 7] 1 := by
  have hdomain : WithinUptime .ideal [briefTask 1 3, briefTask 2 7] 1 :=
    ⟨by decide, by decide, by decide⟩
  exact (percentages_iff .ideal [briefTask 1 3, briefTask 2 7] 1 hdomain).mpr fun _ => by decide

/-- A process that has used half of the uptime of `Machine.ideal`. -/
def halfTask : Task := { Task.ofPages 1 1 with utime := 500000000000 }

/-- A machine that has been up for less than a second. -/
def Machine.early : Machine := { Machine.ideal with totalTimeNs := 999999999 }

/-- Half of the uptime is stored as 50,000,000,000 percent; and in the first second the collection
    divides by zero. -/
theorem not_percentages_half :
    (WithinUptime .ideal [halfTask] 1 ∧ ¬ Percentages .ideal [halfTask] 1) ∧
      WithinUptime .early [.ofPages 1 1] 1 ∧ ¬ Percentages .early [.ofPages 1 1] 1 := by
  refine ⟨⟨⟨by decide, by decide, by decide⟩, ?_⟩, ⟨by decide, by decide, by decide⟩, ?_⟩
  · rintro ⟨result, hresult, hall⟩
    have hok : obtenerInfoProcesos .ideal [halfTask] = some (.ok [procInfo .ideal halfTask 1]) :=
      rfl
    rw [hok, Option.some.injEq] at hresult
    have hstored := (hall _ hresult.symm).1
    revert hstored
    decide
  · rintro ⟨result, hresult, -⟩
    have hnone : obtenerInfoProcesos .early [.ofPages 1 1] = none := rfl
    rw [hnone] at hresult
    cases hresult

end UsacSyscalls.Procs
