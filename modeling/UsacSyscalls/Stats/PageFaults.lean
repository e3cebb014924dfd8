import Mathlib.Data.List.Chain
import UsacSyscalls.Lib.Run
import UsacSyscalls.Stats.Calls

/-!
# The page fault figures over a run

`get_page_faults_info` prints the difference of two page counts under `minor_faults` and a third
page count under `major_faults`.  The counters are gauges: the kernel moves them up and down at any
time, also between the reads of one call.

* `EventCounts` — no figure falls from one call to the next, and no subtraction wraps.
* `eventCounts_append` — what the next call has to find for that.
* `reach_eventCounts` — it holds along every run in which each call finds it.
-/

set_option autoImplicit false

namespace UsacSyscalls.Stats.PageFaults

open Lib.Run

/-! ## The kernel and the calls -/

structure State where
  /-- The counters as they are now. -/
  counters : Counters
  /-- The operands of the subtraction that the call under way has read. -/
  filePages : Option UInt64
  freePages : Option UInt64
  /-- The counters as each of the calls so far has read them. -/
  readings : List Counters

def State.init (k : Counters) : State where
  counters := k
  filePages := none
  freePages := none
  readings := []

/-- The kernel moves the counters, or a call reads one of them. -/
inductive Actor where
  | kernel (k : Counters)
  | read (item : NodeStatItem)

/-- What a call has read that reads `NR_FILE_MAPPED` last. -/
def State.taken (s : State) (filePages freePages : UInt64) : Counters where
  sysinfo := s.counters.sysinfo
  globalNodePageState
    | .NR_FILE_PAGES => filePages
    | .NR_FREE_PAGES => freePages
    | item => s.counters.globalNodePageState item

/-- `get_page_faults_info`, one `global_node_page_state` at a time: the two operands of the
    subtraction in any order, then the third counter, with which the call ends. -/
def readCounter (item : NodeStatItem) (s : State) : Option State :=
  match item, s.filePages, s.freePages with
  | .NR_FILE_PAGES, none, _ =>
    some { s with filePages := some (s.counters.globalNodePageState item) }
  | .NR_FREE_PAGES, _, none =>
    some { s with freePages := some (s.counters.globalNodePageState item) }
  | .NR_FILE_MAPPED, some filePages, some freePages =>
    some { s with
      filePages := none
      freePages := none
      readings := s.readings ++ [s.taken filePages freePages] }
  | _, _, _ => none

def step : Actor → State → Option State
  | .kernel k, s => some { s with counters := k }
  | .read item, s => readCounter item s

/-! ## Event counts -/

/-- `NR_FILE_PAGES - NR_FREE_PAGES` does not wrap. -/
def NoWrap (k : Counters) : Prop :=
  k.globalNodePageState .NR_FREE_PAGES ≤ k.globalNodePageState .NR_FILE_PAGES

instance (k : Counters) : Decidable (NoWrap k) := inferInstanceAs (Decidable (_ ≤ _))

/-- Neither figure of the second call is below that of the first. -/
def NoFall (k k' : Counters) : Prop :=
  (pageFaultsInfo k).minorFaults ≤ (pageFaultsInfo k').minorFaults ∧
    (pageFaultsInfo k).majorFaults ≤ (pageFaultsInfo k').majorFaults

/-- The figures printed from these readings never fall, and none of them comes from a subtraction
    that has wrapped. -/
structure EventCounts (readings : List Counters) : Prop where
  noFall : readings.IsChain NoFall
  noWrap : ∀ k ∈ readings, NoWrap k

/-- From one reading to the next, `NR_FILE_PAGES` has grown by no less than `NR_FREE_PAGES`, and
    `NR_FILE_MAPPED` has not fallen. -/
def Grows (k k' : Counters) : Prop :=
  (k.globalNodePageState .NR_FILE_PAGES).toNat + (k'.globalNodePageState .NR_FREE_PAGES).toNat ≤
      (k'.globalNodePageState .NR_FILE_PAGES).toNat +
        (k.globalNodePageState .NR_FREE_PAGES).toNat ∧
    k.globalNodePageState .NR_FILE_MAPPED ≤ k'.globalNodePageState .NR_FILE_MAPPED

instance (k k' : Counters) : Decidable (Grows k k') := inferInstanceAs (Decidable (_ ∧ _))

/-- What the next call has to find: the first one a difference that is not negative, every other
    one counters that have grown since the call before. -/
def Follows (readings : List Counters) (k : Counters) : Prop :=
  match readings.getLast? with
  | none => NoWrap k
  | some last => Grows last k

theorem NoWrap.minorFaults_toNat {k : Counters} (h : NoWrap k) :
    (pageFaultsInfo k).minorFaults.toNat =
      (k.globalNodePageState .NR_FILE_PAGES).toNat -
        (k.globalNodePageState .NR_FREE_PAGES).toNat :=
  UInt64.toNat_sub_of_le _ _ h

/-- Behind a reading that does not wrap, growth is what keeps both figures up. -/
theorem NoWrap.grows_iff {k k' : Counters} (h : NoWrap k) :
    Grows k k' ↔ NoFall k k' ∧ NoWrap k' := by
  have hle := UInt64.le_iff_toNat_le.mp h
  constructor
  · rintro ⟨hpages, hmapped⟩
    have hwrap : NoWrap k' := UInt64.le_iff_toNat_le.mpr (by omega)
    refine ⟨⟨?_, hmapped⟩, hwrap⟩
    rw [UInt64.le_iff_toNat_le, h.minorFaults_toNat, hwrap.minorFaults_toNat]
    omega
  · rintro ⟨⟨hminor, hmapped⟩, hwrap⟩
    have hle' := UInt64.le_iff_toNat_le.mp hwrap
    rw [UInt64.le_iff_toNat_le, h.minorFaults_toNat, hwrap.minorFaults_toNat] at hminor
    exact ⟨by omega, hmapped⟩

/-- **What the next call has to find**, exactly. -/
theorem eventCounts_append {readings : List Counters} (h : EventCounts readings) (k : Counters) :
    EventCounts (readings ++ [k]) ↔ Follows readings k := by
  have happend : EventCounts (readings ++ [k]) ↔
      (∀ last ∈ readings.getLast?, NoFall last k) ∧ NoWrap k := by
    constructor
    · intro hall
      have hchain := (List.isChain_append.mp hall.noFall).2.2
      exact ⟨fun last hlast => hchain last hlast k rfl, hall.noWrap k (by simp)⟩
    · rintro ⟨hfall, hwrap⟩
      refine ⟨List.isChain_append.mpr ⟨h.noFall, List.isChain_singleton k, ?_⟩, fun k' hk' => ?_⟩
      · intro last hlast k' hk'
        cases hk'
        exact hfall last hlast
      · rcases List.mem_append.mp hk' with hold | hnew
        · exact h.noWrap k' hold
        · rw [List.mem_singleton.mp hnew]
          exact hwrap
  rw [happend]
  unfold Follows
  cases hlast : readings.getLast? with
  | none =>
    constructor
    · exact fun h => h.2
    · exact fun hwrap => ⟨fun last hmem => (by cases hmem), hwrap⟩
  | some last =>
    have hgrows : Grows last k ↔ NoFall last k ∧ NoWrap k :=
      (h.noWrap last (List.mem_of_getLast? hlast)).grows_iff
    constructor
    · rintro ⟨hfall, hwrap⟩
      exact hgrows.mpr ⟨hfall last rfl, hwrap⟩
    · intro hfollows
      obtain ⟨hfall, hwrap⟩ := hgrows.mp hfollows
      refine ⟨fun last' hlast' => ?_, hwrap⟩
      cases hlast'
      exact hfall

/-! ## Every run -/

/-- A move after which the figures are still event counts: every move but the end of a call that
    has read what does not follow on the readings before. -/
def Steady : Actor → State → Prop
  | .kernel _, _ => True
  | .read item, s =>
    match item, s.filePages, s.freePages with
    | .NR_FILE_MAPPED, some filePages, some freePages =>
      Follows s.readings (s.taken filePages freePages)
    | _, _, _ => True

instance (readings : List Counters) (k : Counters) : Decidable (Follows readings k) := by
  unfold Follows
  cases readings.getLast? <;> infer_instance

instance (a : Actor) (s : State) : Decidable (Steady a s) := by
  unfold Steady
  cases a with
  | kernel k => infer_instance
  | read item => dsimp only; split <;> infer_instance

/-- The kernel and the calls, with steady moves only. -/
def steadyStep : Actor → State → Option State := restrict Steady step

/-- What a move does to the readings. -/
theorem step_cases {a : Actor} {s s' : State} (hs : step a s = some s') :
    s'.readings = s.readings ∧ Steady a s ∨
      ∃ filePages freePages, s'.readings = s.readings ++ [s.taken filePages freePages] ∧
        (Steady a s ↔ Follows s.readings (s.taken filePages freePages)) := by
  cases a with
  | kernel k =>
    cases hs
    exact Or.inl ⟨rfl, trivial⟩
  | read item =>
    unfold step readCounter at hs
    unfold Steady
    dsimp only at hs ⊢
    split at hs
    · cases hs
      exact Or.inl ⟨rfl, trivial⟩
    · cases hs
      exact Or.inl ⟨rfl, trivial⟩
    · rename_i filePages freePages hfile hfree
      cases hs
      refine Or.inr ⟨filePages, freePages, rfl, ?_⟩
      rw [hfile, hfree]
    · cases hs

/-- **One move** keeps the figures event counts iff it is steady. -/
theorem eventCounts_step {a : Actor} {s s' : State} (h : EventCounts s.readings)
    (hs : step a s = some s') : EventCounts s'.readings ↔ Steady a s := by
  rcases step_cases hs with ⟨hsame, hsteady⟩ | ⟨filePages, freePages, hnext, hsteady⟩
  · rw [hsame]
    exact iff_of_true h hsteady
  · rw [hnext, hsteady]
    exact eventCounts_append h _

/-- **Event counts along every run** in which each call finds counters that have grown: the
    figures of successive calls never fall, and no subtraction wraps. -/
theorem reach_eventCounts {k : Counters} {s : State}
    (h : Reach steadyStep (.init k) s) : EventCounts s.readings := by
  refine h.invariant (I := fun s => EventCounts s.readings) ⟨List.isChain_nil, ?_⟩ ?_
  · intro k' hk'
    cases hk'
  · intro a t t' ht hs
    obtain ⟨hsteady, hstep⟩ := restrict_eq_some hs
    exact (eventCounts_step ht hstep).mpr hsteady

/-- Counters with these numbers of pages. -/
def pages (file free mapped : UInt64) : Counters where
  sysinfo := ⟨0, 0, 0, 4096, 0, 0⟩
  globalNodePageState
    | .NR_FILE_PAGES => file
    | .NR_FREE_PAGES => free
    | .NR_FILE_MAPPED => mapped
    | _ => 0

/-- One call. -/
def call : List Actor := [.read .NR_FILE_PAGES, .read .NR_FREE_PAGES, .read .NR_FILE_MAPPED]

/-- Two calls, between which all three counters grow. -/
theorem reach_eventCounts_growing : ∃ s,
    exec steadyStep (call ++ .kernel (pages 120 15 60) :: call) (.init (pages 100 10 50)) =
      some s ∧ s.readings.length = 2 ∧ EventCounts s.readings := by
  have hlength : (exec steadyStep (call ++ .kernel (pages 120 15 60) :: call)
      (.init (pages 100 10 50))).map (fun s => s.readings.length) = some 2 := by decide +kernel
  obtain ⟨s, hs, hlen⟩ := Option.map_eq_some_iff.mp hlength
  exact ⟨s, hs, hlen, reach_eventCounts (reach_of_exec _ hs)⟩

/-- The figures fall with the counters: 90 and 50, then 80 and 40.  And they wrap when there are
    more free pages than file pages. -/
theorem not_eventCounts_gauges :
    (¬ ∀ k s, Reach step (.init k) s → s.readings.IsChain NoFall) ∧
      ¬ ∀ k s, Reach step (.init k) s → ∀ k' ∈ s.readings, NoWrap k' := by
  constructor
  · intro hall
    have hfall : ¬ NoFall (pages 100 10 50) (pages 90 10 40) := by
      intro h
      exact absurd h.1 (by decide)
    have hchain := hall (pages 100 10 50) _
      (reach_of_exec (call ++ .kernel (pages 90 10 40) :: call) rfl)
    exact hfall (List.isChain_cons_cons.mp hchain).1
  · intro hall
    have hwrap : ¬ NoWrap (pages 10 100 0) := by decide
    have hmem := hall (pages 10 100 0) _ (reach_of_exec call rfl) _ List.mem_cons_self
    exact hwrap hmem

end UsacSyscalls.Stats.PageFaults
