import UsacSyscalls.Procs.Document

/-!
# Which five processes are listed

`obtener_info_procesos` fills its array in the order in which the kernel visits the processes, and
nothing sorts it; `procesos_info` lists the first five.

* `obtener_eq` — what is collected: the processes with an address space, up to 1024 of them.
* `obtener_cases` — when it is collected: with memory for the array, and unless the uptime of less
  than a second is divided by.
* `TopFive` — the list consists of `min 5 n` distinct processes, and none that is left out is
  larger than one that is listed.
* `topFive_iff` — it does exactly when the first five that are visited are the largest.
-/

set_option autoImplicit false

namespace UsacSyscalls.Procs

/-- The processes with an address space, in visiting order, with their resident pages. -/
def users (table : List Task) : List (Task × UInt64) :=
  table.filterMap fun task => task.mm.map fun pages => (task, pages)

theorem collect_foldlM {m : Machine} : ∀ {table : List Task} {procs out : List ProcMemInfo},
    table.foldlM (collect m) procs = some out → procs.length ≤ MAX_PROCS →
    out = procs ++ ((users table).map fun u => procInfo m u.1 u.2).take (MAX_PROCS - procs.length)
  | [], procs, out, h, _ => by
    cases h
    simp [users]
  | task :: table, procs, out, h, hle => by
    rw [List.foldlM_cons] at h
    obtain ⟨procs', hc, hrest⟩ := Option.bind_eq_some_iff.mp h
    unfold collect at hc
    cases hmm : task.mm with
    | none =>
      rw [hmm] at hc
      cases hc
      rw [collect_foldlM hrest hle]
      simp [users, hmm]
    | some pages =>
      have husers : users (task :: table) = (task, pages) :: users table := by
        simp [users, hmm]
      rw [hmm] at hc
      simp only at hc
      split at hc
      · rename_i hlt
        split at hc
        · cases hc
        · cases hc
          have hlen : (procs ++ [procInfo m task pages]).length = procs.length + 1 := by simp
          rw [collect_foldlM hrest (by omega), hlen, husers, List.map_cons,
            show MAX_PROCS - procs.length = MAX_PROCS - (procs.length + 1) + 1 by omega,
            List.take_succ_cons, List.append_assoc, List.singleton_append]
      · rename_i hge
        cases hc
        have hzero : MAX_PROCS - procs.length = 0 := by omega
        rw [collect_foldlM hrest hle, hzero, List.take_zero, List.take_zero]

/-- **What is collected**: the processes with an address space in visiting order, up to 1024. -/
theorem obtener_eq {m : Machine} {table : List Task} {procs : List ProcMemInfo}
    (h : obtenerInfoProcesos m table = some (.ok procs)) :
    procs = ((users table).map fun u => procInfo m u.1 u.2).take MAX_PROCS := by
  unfold obtenerInfoProcesos at h
  split at h
  · obtain ⟨out, hout, he⟩ := Option.map_eq_some_iff.mp h
    cases he
    exact collect_foldlM hout (Nat.zero_le _)
  · cases h

/-! ## When the collection succeeds -/

/-- The processes that are collected unless something goes wrong. -/
def collected (m : Machine) (table : List Task) : List ProcMemInfo :=
  ((users table).map fun u => procInfo m u.1 u.2).take MAX_PROCS

/-- The machine has been up for less than a second, and there is a process to collect. -/
def DividesByZero (m : Machine) (table : List Task) : Prop :=
  m.kmallocArray = true ∧ m.totalTimeNs / 1000000000 = 0 ∧ users table ≠ []

/-- Without a division by zero, every process is gone through. -/
theorem collect_foldlM_isSome {m : Machine} : ∀ {table : List Task} (procs : List ProcMemInfo),
    (m.totalTimeNs / 1000000000 = 0 → users table = []) →
    ∃ out, table.foldlM (collect m) procs = some out
  | [], procs, _ => ⟨procs, rfl⟩
  | task :: table, procs, h => by
    have hrest : m.totalTimeNs / 1000000000 = 0 → users table = [] := by
      intro hzero
      have hnil := h hzero
      rw [users, List.filterMap_cons] at hnil
      split at hnil
      · exact hnil
      · cases hnil
    have hstep : ∃ procs', collect m procs task = some procs' := by
      unfold collect
      cases hmm : task.mm with
      | none => exact ⟨procs, rfl⟩
      | some pages =>
        have hpos : m.totalTimeNs / 1000000000 ≠ 0 := by
          intro hzero
          have hnil := h hzero
          simp [users, hmm] at hnil
        simp only [if_neg hpos]
        split
        · exact ⟨_, rfl⟩
        · exact ⟨_, rfl⟩
    obtain ⟨procs', hprocs'⟩ := hstep
    rw [List.foldlM_cons, hprocs']
    exact collect_foldlM_isSome procs' hrest

/-- The first process with an address space ends a collection that divides by zero. -/
theorem collect_foldlM_none {m : Machine} (hzero : m.totalTimeNs / 1000000000 = 0)
    {procs : List ProcMemInfo} (hroom : procs.length < MAX_PROCS) :
    ∀ {table : List Task}, users table ≠ [] → table.foldlM (collect m) procs = none
  | [], h => absurd rfl h
  | task :: table, h => by
    rw [List.foldlM_cons]
    unfold collect
    cases hmm : task.mm with
    | none =>
      refine collect_foldlM_none hzero hroom fun hnil => h ?_
      rw [users, List.filterMap_cons, hmm]
      exact hnil
    | some pages =>
      simp only [if_pos hroom, if_pos hzero]
      rfl

/-- **What `obtener_info_procesos` does**: it runs out of memory, divides by zero, or collects. -/
theorem obtener_cases (m : Machine) (table : List Task) :
    (m.kmallocArray = false ∧ obtenerInfoProcesos m table = some (.error ENOMEM)) ∨
      (DividesByZero m table ∧ obtenerInfoProcesos m table = none) ∨
      (m.kmallocArray = true ∧ ¬ DividesByZero m table ∧
        obtenerInfoProcesos m table = some (.ok (collected m table))) := by
  cases harray : m.kmallocArray with
  | false =>
    refine Or.inl ⟨rfl, ?_⟩
    unfold obtenerInfoProcesos
    rw [harray]
    rfl
  | true =>
    have hobtener : obtenerInfoProcesos m table = (table.foldlM (collect m) []).map .ok := by
      unfold obtenerInfoProcesos
      rw [harray]
      rfl
    by_cases hdiv : DividesByZero m table
    · refine Or.inr (Or.inl ⟨hdiv, ?_⟩)
      obtain ⟨-, hzero, husers⟩ := hdiv
      have hroom : ([] : List ProcMemInfo).length < MAX_PROCS := by decide
      rw [hobtener, collect_foldlM_none hzero hroom husers]
      rfl
    · have hempty : m.totalTimeNs / 1000000000 = 0 → users table = [] := by
        intro hzero
        by_contra husers
        exact hdiv ⟨harray, hzero, husers⟩
      obtain ⟨out, hout⟩ := collect_foldlM_isSome [] hempty
      rw [hout, Option.map_some] at hobtener
      have hcollected : out = collected m table := obtener_eq hobtener
      exact Or.inr (Or.inr ⟨rfl, hdiv, by rw [hobtener, hcollected]⟩)

/-- The processes are collected, and the buffer is there and has room for the document. -/
structure Succeeds (m : Machine) (table : List Task) (size : UInt64) (procs : List ProcMemInfo) :
    Prop where
  collected : obtenerInfoProcesos m table = some (.ok procs)
  memory : m.kmalloc (outputSize size) = true
  fits : (document procs).length < outputSize size

/-- The list that a successful call writes consists of `min 5 n` distinct processes of the table,
    and no process that is left out has a larger resident set than one that is listed. -/
def TopFive (m : Machine) (table : List Task) (size : UInt64) : Prop :=
  ∀ procs reply, Succeeds m table size procs → procesosInfo m table size = some reply →
    reply.listed.Nodup ∧ reply.listed.length = min 5 (users table).length ∧
    ∀ i ∈ reply.listed, ∃ u, (users table)[i]? = some u ∧
      procs[i]? = some (procInfo m u.1 u.2) ∧
      ∀ j v, (users table)[j]? = some v → j ∉ reply.listed → v.2 ≤ u.2

/-- No process after the fifth that is visited has a larger resident set than one of the first
    five. -/
def FirstFiveLargest (table : List Task) : Prop :=
  ∀ i j u v, i < 5 → 5 ≤ j → (users table)[i]? = some u → (users table)[j]? = some v → v.2 ≤ u.2

variable {m : Machine} {table : List Task} {size : UInt64} {procs : List ProcMemInfo}

theorem Succeeds.procs_eq (h : Succeeds m table size procs) :
    procs = ((users table).map fun u => procInfo m u.1 u.2).take MAX_PROCS :=
  obtener_eq h.collected

theorem Succeeds.listed (h : Succeeds m table size procs) {reply : ProcReply}
    (hreply : procesosInfo m table size = some reply) :
    reply.listed = List.range (min 5 (users table).length) := by
  have hmin : min 5 procs.length = min 5 (users table).length := by
    rw [h.procs_eq, List.length_take, List.length_map, MAX_PROCS]
    omega
  rw [procesosInfo_fits h.collected h.memory h.fits] at hreply
  cases hreply
  rw [hmin]

theorem largest_of_topFive (h : TopFive m table size) (hs : Succeeds m table size procs) :
    FirstFiveLargest table := by
  intro i j u v hi hj hu hv
  have hcall := procesosInfo_fits hs.collected hs.memory hs.fits
  obtain ⟨-, -, htop⟩ := h procs _ hs hcall
  have hlisted := hs.listed hcall
  rw [hlisted] at htop
  have hlt := (List.getElem?_eq_some_iff.mp hu).1
  obtain ⟨w, hw, -, hle⟩ := htop i (List.mem_range.mpr (by omega))
  rw [hu] at hw
  cases hw
  exact hle j v hv fun hmem => by have := List.mem_range.mp hmem; omega

theorem topFive_of_largest (h : ∀ procs, Succeeds m table size procs → FirstFiveLargest table) :
    TopFive m table size := by
  intro procs reply hs hreply
  have hlargest := h procs hs
  rw [hs.listed hreply]
  refine ⟨List.nodup_range, List.length_range, fun i hi => ?_⟩
  have hi := List.mem_range.mp hi
  have hlt : i < (users table).length := by omega
  refine ⟨(users table)[i], List.getElem?_eq_getElem hlt, ?_, fun j v hv hj => ?_⟩
  · have h1024 : i < MAX_PROCS := by unfold MAX_PROCS; omega
    rw [hs.procs_eq, List.getElem?_take_of_lt h1024, List.getElem?_map,
      List.getElem?_eq_getElem hlt, Option.map_some]
  · have hjlt := (List.getElem?_eq_some_iff.mp hv).1
    rw [List.mem_range] at hj
    exact hlargest i j _ v (by omega) (by omega) (List.getElem?_eq_getElem hlt) hv

/-- **The five largest are listed** iff, in a call that succeeds, the first five processes that
    are visited are the largest. -/
theorem topFive_iff (m : Machine) (table : List Task) (size : UInt64) :
    TopFive m table size ↔ ∀ procs, Succeeds m table size procs → FirstFiveLargest table :=
  ⟨fun h _ hs => largest_of_topFive h hs, topFive_of_largest⟩

/-- A machine that is up for 1000 s and serves every request it can. -/
def Machine.ideal : Machine where
  totalTimeNs := 1000000000000
  kmallocArray := true
  kmalloc n := n ≤ KMALLOC_MAX_SIZE
  heap _ := 0
  accepts := 912
  kmalloc_zero := rfl
  kmalloc_max n h := by simpa using h

/-- A process with an empty name and `pages` resident pages. -/
def Task.ofPages (pid : Int32) (pages : UInt64) : Task :=
  ⟨pid, some pages, 0, 0, ⟨[], by decide, by decide⟩⟩

/-- Six processes of growing size: the largest is visited last and left out. -/
theorem not_topFive_growing :
    ¬ TopFive Machine.ideal
      [.ofPages 1 1, .ofPages 2 2, .ofPages 3 3, .ofPages 4 4, .ofPages 5 5, .ofPages 6 6] 912 := by
  intro h
  have hs : Succeeds Machine.ideal
      [.ofPages 1 1, .ofPages 2 2, .ofPages 3 3, .ofPages 4 4, .ofPages 5 5, .ofPages 6 6] 912 _ :=
    ⟨rfl, by decide, lt_of_le_of_lt (document_length _) (by decide)⟩
  have hle := largest_of_topFive h hs 0 5 _ _ (by decide) (by decide) rfl rfl
  revert hle
  decide

end UsacSyscalls.Procs
