import UsacSyscalls.Kernel
import UsacSyscalls.Lib.CString
import UsacSyscalls.Lib.Format

/-!
# The statistics system calls

Reference model of `get_ram_stats`, `get_swap_info`, `get_page_faults_info` and
`get_memory_pages_info` of `kernel/my_sys.c`.  Each reads some counters, prints them into a local
array and copies the whole array to user space; the array has no initialiser, so its prior
contents are a parameter.

* `text_fits` — no text is cut off by its array.
* `stackIndependent_iff` — what reaches user space is independent of the prior contents only as
  long as the copy stops before the first byte behind the text's NUL.
-/

set_option autoImplicit false

namespace UsacSyscalls.Stats

open Lib.CString Lib.Format

/-! ## The counters -/

inductive NodeStatItem where
  | NR_FILE_PAGES
  | NR_FREE_PAGES
  | NR_FILE_MAPPED
  | NR_ACTIVE_ANON
  | NR_ACTIVE_FILE
  | NR_INACTIVE_ANON
  | NR_INACTIVE_FILE
  deriving DecidableEq, Repr

/-- What `si_meminfo` and `si_swapinfo` fill in of `struct sysinfo`. -/
structure Sysinfo where
  totalram : UInt64
  freeram : UInt64
  bufferram : UInt64
  memUnit : UInt32
  totalswap : UInt64
  freeswap : UInt64
  deriving DecidableEq, Repr

/-- The counters one call reads. -/
structure Counters where
  sysinfo : Sysinfo
  globalNodePageState : NodeStatItem → UInt64

def PAGE_SHIFT : UInt64 := 12
def PAGE_SIZE : UInt64 := 4096

/-! ## The texts -/

def RAM_STATS_FORMAT : String :=
  "\"ram_stats\": \x7b\n" ++
  "  \"total\": %lu,\n" ++
  "  \"used\": %lu,\n" ++
  "  \"free\": %lu,\n" ++
  "  \"cache\": %lu,\n" ++
  "  \"buffers\": %lu,\n" ++
  "  \"percentage_used\": %lu\n" ++
  "\x7d\n"

def SWAP_INFO_FORMAT : String :=
  "\"swap_info\": \x7b\n" ++
  "  \"total\": %lu,\n" ++
  "  \"used\": %lu,\n" ++
  "  \"free\": %lu\n" ++
  "\x7d\n"

def PAGE_FAULTS_INFO_FORMAT : String :=
  "\"page_faults_info\": \x7b\n" ++
  "  \"minor_faults\": %lu,\n" ++
  "  \"major_faults\": %lu\n" ++
  "\x7d\n"

def MEMORY_PAGES_INFO_FORMAT : String :=
  "\"memory_pages_info\": \x7b\n" ++
  "  \"active\": %lu,\n" ++
  "  \"inactive\": %lu\n" ++
  "\x7d\n"

/-- The numbers `get_ram_stats` prints. -/
structure RamStats where
  total : UInt64
  used : UInt64
  free : UInt64
  cache : UInt64
  buffers : UInt64
  percentageUsed : UInt64
  deriving DecidableEq, Repr

/-- A text in which every conversion is `%lu`. -/
def statsText (fmt : String) (ns : List UInt64) : Bytes := printf (format fmt) (ns.map .lu)

def RamStats.text (r : RamStats) : Bytes :=
  statsText RAM_STATS_FORMAT [r.total, r.used, r.free, r.cache, r.buffers, r.percentageUsed]

/-- The arithmetic of `get_ram_stats`; `none` is a division by zero. -/
def ramStats (k : Counters) : Option RamStats :=
  let inf := k.sysinfo
  let unit := inf.memUnit.toUInt64
  let cachedMem := (k.globalNodePageState .NR_FILE_PAGES - inf.bufferram) * PAGE_SIZE
  let total := inf.totalram * unit
  if unit = 0 ∨ total = 0 then none
  else
    let usedMem := (inf.totalram - inf.freeram - inf.bufferram - cachedMem / unit) * unit
    some {
      total := total
      used := usedMem
      free := inf.freeram * unit
      cache := cachedMem
      buffers := inf.bufferram * unit
      percentageUsed := usedMem * 100 / total }

/-- The numbers `get_swap_info` prints. -/
structure SwapInfo where
  total : UInt64
  used : UInt64
  free : UInt64
  deriving DecidableEq, Repr

def SwapInfo.text (r : SwapInfo) : Bytes := statsText SWAP_INFO_FORMAT [r.total, r.used, r.free]

def swapInfo (k : Counters) : SwapInfo :=
  let inf := k.sysinfo
  let swapUsed := inf.totalswap - inf.freeswap
  { total := inf.totalswap <<< (PAGE_SHIFT - 10)
    used := swapUsed <<< (PAGE_SHIFT - 10)
    free := inf.freeswap <<< (PAGE_SHIFT - 10) }

/-- The numbers `get_page_faults_info` prints. -/
structure PageFaultsInfo where
  minorFaults : UInt64
  majorFaults : UInt64
  deriving DecidableEq, Repr

def PageFaultsInfo.text (r : PageFaultsInfo) : Bytes :=
  statsText PAGE_FAULTS_INFO_FORMAT [r.minorFaults, r.majorFaults]

def pageFaultsInfo (k : Counters) : PageFaultsInfo where
  minorFaults := k.globalNodePageState .NR_FILE_PAGES - k.globalNodePageState .NR_FREE_PAGES
  majorFaults := k.globalNodePageState .NR_FILE_MAPPED

/-- The numbers `get_memory_pages_info` prints. -/
structure MemoryPagesInfo where
  active : UInt64
  inactive : UInt64
  deriving DecidableEq, Repr

def MemoryPagesInfo.text (r : MemoryPagesInfo) : Bytes :=
  statsText MEMORY_PAGES_INFO_FORMAT [r.active, r.inactive]

def memoryPagesInfo (k : Counters) : MemoryPagesInfo where
  active := k.globalNodePageState .NR_ACTIVE_ANON + k.globalNodePageState .NR_ACTIVE_FILE
  inactive := k.globalNodePageState .NR_INACTIVE_ANON + k.globalNodePageState .NR_INACTIVE_FILE

/-! ## The calls -/

/-- A local array of `n` bytes. -/
abbrev Buffer (n : Nat) := { bs : Bytes // bs.length = n }

/-- What the four calls share: print into the local array, copy all of the array. -/
def statsReply {n : Nat} (text : Bytes) (buffer : Buffer n) (accepts : Nat) : Reply :=
  copyToUser accepts (snprintf buffer.val 0 text)

def getRamStats (k : Counters) (buffer : Buffer 256) (accepts : Nat) : Option Reply :=
  (ramStats k).map fun r => statsReply r.text buffer accepts

def getSwapInfo (k : Counters) (buffer : Buffer 128) (accepts : Nat) : Option Reply :=
  some (statsReply (swapInfo k).text buffer accepts)

def getPageFaultsInfo (k : Counters) (buffer : Buffer 128) (accepts : Nat) : Option Reply :=
  some (statsReply (pageFaultsInfo k).text buffer accepts)

def getMemoryPagesInfo (k : Counters) (buffer : Buffer 128) (accepts : Nat) : Option Reply :=
  some (statsReply (memoryPagesInfo k).text buffer accepts)

inductive StatsCall where
  | getRamStats
  | getSwapInfo
  | getPageFaultsInfo
  | getMemoryPagesInfo
  deriving DecidableEq, Repr

/-- The size of the local array. -/
def StatsCall.size : StatsCall → Nat
  | .getRamStats => 256
  | .getSwapInfo => 128
  | .getPageFaultsInfo => 128
  | .getMemoryPagesInfo => 128

def StatsCall.format : StatsCall → String
  | .getRamStats => RAM_STATS_FORMAT
  | .getSwapInfo => SWAP_INFO_FORMAT
  | .getPageFaultsInfo => PAGE_FAULTS_INFO_FORMAT
  | .getMemoryPagesInfo => MEMORY_PAGES_INFO_FORMAT

/-- The numbers a call prints; `none` when it divides by zero before that. -/
def StatsCall.numbers (k : Counters) : StatsCall → Option (List UInt64)
  | .getRamStats =>
    (ramStats k).map fun r => [r.total, r.used, r.free, r.cache, r.buffers, r.percentageUsed]
  | .getSwapInfo => some [(swapInfo k).total, (swapInfo k).used, (swapInfo k).free]
  | .getPageFaultsInfo => some [(pageFaultsInfo k).minorFaults, (pageFaultsInfo k).majorFaults]
  | .getMemoryPagesInfo => some [(memoryPagesInfo k).active, (memoryPagesInfo k).inactive]

def StatsCall.run (k : Counters) (accepts : Nat) :
    (call : StatsCall) → Buffer call.size → Option Reply
  | .getRamStats, buffer => Stats.getRamStats k buffer accepts
  | .getSwapInfo, buffer => Stats.getSwapInfo k buffer accepts
  | .getPageFaultsInfo, buffer => Stats.getPageFaultsInfo k buffer accepts
  | .getMemoryPagesInfo, buffer => Stats.getMemoryPagesInfo k buffer accepts

/-! ## What the buffer holds -/

theorem StatsCall.run_eq (k : Counters) (accepts : Nat) (call : StatsCall)
    (buffer : Buffer call.size) :
    call.run k accepts buffer =
      (call.numbers k).map fun ns => statsReply (statsText call.format ns) buffer accepts := by
  cases call
  · show (ramStats k).map _ = ((ramStats k).map _).map _
    rw [Option.map_map]
    rfl
  all_goals rfl

/-- The conversions and the literal characters of a call's format. -/
def StatsCall.conversions : StatsCall → Nat
  | .getRamStats => 6
  | .getSwapInfo => 3
  | .getPageFaultsInfo => 2
  | .getMemoryPagesInfo => 2

def StatsCall.literals : StatsCall → Nat
  | .getRamStats => 104
  | .getSwapInfo => 53
  | .getPageFaultsInfo => 63
  | .getMemoryPagesInfo => 54

theorem StatsCall.shape_format (call : StatsCall) :
    shape (Lib.Format.format call.format) = some (call.conversions, call.literals) := by
  cases call <;> decide +kernel

theorem StatsCall.numbers_length {k : Counters} {call : StatsCall} {ns : List UInt64}
    (h : call.numbers k = some ns) : ns.length = call.conversions := by
  cases call with
  | getRamStats =>
    obtain ⟨r, -, rfl⟩ := Option.map_eq_some_iff.mp h
    rfl
  | getSwapInfo => cases h; rfl
  | getPageFaultsInfo => cases h; rfl
  | getMemoryPagesInfo => cases h; rfl

/-- The length of a call's text with its NUL, from the digits of the numbers it prints. -/
def StatsCall.textLength (call : StatsCall) (ns : List UInt64) : Nat :=
  call.literals + digits ns + 1

section Text

variable {call : StatsCall} {ns : List UInt64}

theorem StatsCall.textLength_eq (h : ns.length = call.conversions) :
    (statsText call.format ns).length + 1 = call.textLength ns :=
  congrArg (· + 1) (printf_of_shape (by rw [h, call.shape_format])).1

theorem StatsCall.text_noNul (h : ns.length = call.conversions) :
    (0 : UInt8) ∉ statsText call.format ns :=
  (printf_of_shape (by rw [h, call.shape_format])).2

/-- **No text is cut off by its array**, whatever the numbers. -/
theorem StatsCall.text_fits (h : ns.length = call.conversions) :
    call.textLength ns < call.size := by
  have hdigits := digits_le ns
  have hsize : call.literals + 20 * call.conversions + 1 < call.size := by cases call <;> decide
  unfold StatsCall.textLength
  omega

end Text

/-- The local array after a text that fits has been printed into it. -/
theorem snprintf_fits {n : Nat} (text : Bytes) (buffer : Buffer n) (h : text.length < n) :
    snprintf buffer.val 0 text = text ++ 0 :: buffer.val.drop (text.length + 1) := by
  have hlen := buffer.property
  unfold snprintf
  rw [if_pos (by omega), List.take_of_length_le (by omega)]
  simp only [List.take_zero, List.nil_append, Nat.zero_add]

/-! ## Two runs on the same counters -/

/-- Two runs that differ only in the prior contents of the local array deliver the same bytes. -/
def StackIndependent (call : StatsCall) (k : Counters) (accepts : Nat) : Prop :=
  ∀ buffer₁ buffer₂ : Buffer call.size,
    (call.run k accepts buffer₁).map Reply.delivered =
      (call.run k accepts buffer₂).map Reply.delivered

/-- An array in which every byte is `b`. -/
def filled (n : Nat) (b : UInt8) : Buffer n := ⟨List.replicate n b, List.length_replicate⟩

/-- **No kernel stack in the replies**: what is delivered is independent of the prior contents of
    the array iff the copy stops at the latest with the text's NUL, or nothing is copied because
    of a division by zero. -/
theorem stackIndependent_iff (call : StatsCall) (k : Counters) (accepts : Nat) :
    StackIndependent call k accepts ↔
      ∀ ns, call.numbers k = some ns → accepts ≤ call.textLength ns := by
  have hrun : ∀ {ns}, call.numbers k = some ns → ∀ buffer : Buffer call.size,
      (call.run k accepts buffer).map Reply.delivered =
        some ((statsText call.format ns ++
          0 :: buffer.val.drop (call.textLength ns)).take accepts) := by
    intro ns hns buffer
    have hfits := StatsCall.text_fits (StatsCall.numbers_length hns)
    have hlen := StatsCall.textLength_eq (StatsCall.numbers_length hns)
    rw [StatsCall.run_eq, hns, Option.map_some, Option.map_some, statsReply,
      copyToUser_delivered, snprintf_fits _ _ (by omega), hlen]
  constructor
  · intro h ns hns
    have hfits := StatsCall.text_fits (StatsCall.numbers_length hns)
    have hlen := StatsCall.textLength_eq (StatsCall.numbers_length hns)
    have heq := h (filled call.size 0) (filled call.size 1)
    rw [hrun hns, hrun hns, Option.some.injEq] at heq
    by_contra hgt
    -- the first byte behind the NUL is the array's own
    have hbyte := congrArg (·[call.textLength ns]?) heq
    have hlt : call.textLength ns < accepts := by omega
    simp only [List.getElem?_take, hlt, if_true, filled, List.drop_replicate] at hbyte
    rw [List.getElem?_append_right (by omega), List.getElem?_append_right (by omega),
      show call.textLength ns - (statsText call.format ns).length = 0 + 1 by omega,
      List.getElem?_cons_succ, List.getElem?_cons_succ, List.getElem?_replicate,
      List.getElem?_replicate, if_pos (by omega), if_pos (by omega)] at hbyte
    exact absurd hbyte (by decide)
  · intro h buffer₁ buffer₂
    cases hns : call.numbers k with
    | none => rw [StatsCall.run_eq, StatsCall.run_eq, hns]; rfl
    | some ns =>
      have hle := h ns hns
      have hlen := StatsCall.textLength_eq (StatsCall.numbers_length hns)
      rw [hrun hns, hrun hns]
      have hcut : ∀ rest : Bytes, (statsText call.format ns ++ 0 :: rest).take accepts =
          (statsText call.format ns ++ [0]).take accepts := by
        intro rest
        rw [show statsText call.format ns ++ 0 :: rest = (statsText call.format ns ++ [0]) ++ rest by
          simp, List.take_append_of_le_length (by simp; omega)]
      rw [hcut, hcut (List.drop _ _)]

/-- The default copy of all 128 bytes of `get_swap_info` on a machine without swap. -/
theorem not_stackIndependent_swap :
    ¬ StackIndependent .getSwapInfo ⟨⟨0, 0, 0, 4096, 0, 0⟩, fun _ => 0⟩ 128 := by
  intro h
  have heq := h (filled 128 0) (filled 128 1)
  revert heq
  decide +kernel

end UsacSyscalls.Stats
