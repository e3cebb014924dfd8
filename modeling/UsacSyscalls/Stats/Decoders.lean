import UsacSyscalls.Stats.Backend

/-!
# The backend's reading of the other statistics

Reference model of `handle_swap_info`, `handle_page_faults_info` and `handle_memory_pages_info` of
`Api/Backend/api_syscalls.c`.  The three scan the text of their system call with a format of their
own and hand the numbers on under names of their own; they share one definition.

* `handleStats_reply` — with a scan format that differs from the printed one after the last number
  at most, the numbers are those that were printed, whatever the variables contained.
* `statistics_decode` — this is so for the three pairs of formats.
-/

set_option autoImplicit false

namespace UsacSyscalls.Stats

open Lib.CString Lib.Format Backend

/-! ## The handlers -/

/-- The JSON object a handler returns: its name, and the numbers under theirs. -/
structure Response where
  name : String
  numbers : List (String × UInt64)
  deriving DecidableEq, Repr

/-- What the three handlers share, from the prior contents of their local variables. -/
def handleStats (name scan : String) (names : List String) (reply : Reply) (vars : List UInt64) :
    Option Response :=
  (getSystemInfo reply).map fun str => ⟨name, names.zip (scanf (format scan) str vars)⟩

def SWAP_INFO_SCAN : String :=
  "\"swap_info\": \x7b\n  \"total\": %lu,\n  \"used\": %lu,\n  \"free\": %lu\n\x7d"

def PAGE_FAULTS_INFO_SCAN : String :=
  "\"page_faults_info\": \x7b\n  \"minor_faults\": %lu,\n  \"major_faults\": %lu\n\x7d"

def MEMORY_PAGES_INFO_SCAN : String :=
  "\"memory_pages_info\": \x7b\n  \"active\": %lu,\n  \"inactive\": %lu\n\x7d"

def handleSwapInfo (reply : Reply) (total used freeMemory : UInt64) : Option Response :=
  handleStats "swap_info" SWAP_INFO_SCAN ["total", "used", "free"] reply [total, used, freeMemory]

def handlePageFaultsInfo (reply : Reply) (minorFaults majorFaults : UInt64) : Option Response :=
  handleStats "page_faults_info" PAGE_FAULTS_INFO_SCAN ["minor_faults", "major_faults"] reply
    [minorFaults, majorFaults]

def handleMemoryPagesInfo (reply : Reply) (active inactive : UInt64) : Option Response :=
  handleStats "memory_pages_info" MEMORY_PAGES_INFO_SCAN ["active", "inactive"] reply
    [active, inactive]

/-! ## The printed and the scanned formats -/

theorem format_SWAP_INFO : format SWAP_INFO_FORMAT =
    luFormat "\"swap_info\": \x7b\n  \"total\": "
      ([",\n  \"used\": ", ",\n  \"free\": "] ++ ["\n\x7d\n"]) := by
  delta SWAP_INFO_FORMAT
  simp only [format, String.toList_append]
  simp [parseChars, luFormat, lits, bytes]

theorem format_SWAP_INFO_SCAN : format SWAP_INFO_SCAN =
    luFormat "\"swap_info\": \x7b\n  \"total\": "
      ([",\n  \"used\": ", ",\n  \"free\": "] ++ ["\n\x7d"]) := by
  delta SWAP_INFO_SCAN
  simp [format, parseChars, luFormat, lits, bytes]

theorem format_PAGE_FAULTS_INFO : format PAGE_FAULTS_INFO_FORMAT =
    luFormat "\"page_faults_info\": \x7b\n  \"minor_faults\": "
      ([",\n  \"major_faults\": "] ++ ["\n\x7d\n"]) := by
  delta PAGE_FAULTS_INFO_FORMAT
  simp only [format, String.toList_append]
  simp [parseChars, luFormat, lits, bytes]

theorem format_PAGE_FAULTS_INFO_SCAN : format PAGE_FAULTS_INFO_SCAN =
    luFormat "\"page_faults_info\": \x7b\n  \"minor_faults\": "
      ([",\n  \"major_faults\": "] ++ ["\n\x7d"]) := by
  delta PAGE_FAULTS_INFO_SCAN
  simp [format, parseChars, luFormat, lits, bytes]

theorem format_MEMORY_PAGES_INFO : format MEMORY_PAGES_INFO_FORMAT =
    luFormat "\"memory_pages_info\": \x7b\n  \"active\": "
      ([",\n  \"inactive\": "] ++ ["\n\x7d\n"]) := by
  delta MEMORY_PAGES_INFO_FORMAT
  simp only [format, String.toList_append]
  simp [parseChars, luFormat, lits, bytes]

theorem format_MEMORY_PAGES_INFO_SCAN : format MEMORY_PAGES_INFO_SCAN =
    luFormat "\"memory_pages_info\": \x7b\n  \"active\": "
      ([",\n  \"inactive\": "] ++ ["\n\x7d"]) := by
  delta MEMORY_PAGES_INFO_SCAN
  simp [format, parseChars, luFormat, lits, bytes]

/-! ## Print and parse -/

/-- **The handlers read what the calls print**, when the two formats differ after the last number
    at most. -/
theorem handleStats_reply (call : StatsCall) {scan s t u : String} {ts : List String}
    (hprint : format call.format = luFormat s (ts ++ [t]))
    (hscan : format scan = luFormat s (ts ++ [u])) (ht : EndsNumber t)
    (hts : ∀ x ∈ ts, EndsNumber x) (hconv : call.conversions = ts.length + 1)
    {ns vars : List UInt64} (hns : ns.length = call.conversions)
    (hvars : vars.length = call.conversions) (name : String) (names : List String)
    (buffer : Buffer call.size) :
    handleStats name scan names
      (statsReply (statsText call.format ns) buffer SYSTEM_INFO_SIZE) vars =
        some ⟨name, names.zip ns⟩ := by
  have hread : scanf (format scan) (statsText call.format ns) vars = ns := by
    rw [statsText, hprint, hscan]
    exact scanf_printf_luFormat ht s ts ns vars hts (hns.trans hconv) (hvars.trans hconv)
  unfold handleStats
  rw [getSystemInfo_statsReply hns buffer, Option.map_some, hread]

/-- The separators of the three formats. -/
theorem endsNumber_separators :
    EndsNumber ",\n  \"used\": " ∧ EndsNumber ",\n  \"free\": " ∧
      EndsNumber ",\n  \"major_faults\": " ∧ EndsNumber ",\n  \"inactive\": " ∧
        EndsNumber "\n\x7d\n" := by
  refine ⟨⟨44, ?_, by decide⟩, ⟨44, ?_, by decide⟩, ⟨44, ?_, by decide⟩, ⟨44, ?_, by decide⟩,
    ⟨10, ?_, by decide⟩⟩ <;> simp [bytes]

theorem handleSwapInfo_reply (r : SwapInfo) (buffer : Buffer 128) (total used freeMemory : UInt64) :
    handleSwapInfo (statsReply r.text buffer SYSTEM_INFO_SIZE) total used freeMemory =
      some ⟨"swap_info", [("total", r.total), ("used", r.used), ("free", r.free)]⟩ := by
  obtain ⟨hused, hfree, -, -, hend⟩ := endsNumber_separators
  exact handleStats_reply .getSwapInfo format_SWAP_INFO format_SWAP_INFO_SCAN hend
    (by simp [hused, hfree]) rfl rfl rfl _ _ buffer

theorem handlePageFaultsInfo_reply (r : PageFaultsInfo) (buffer : Buffer 128)
    (minorFaults majorFaults : UInt64) :
    handlePageFaultsInfo (statsReply r.text buffer SYSTEM_INFO_SIZE) minorFaults majorFaults =
      some ⟨"page_faults_info",
        [("minor_faults", r.minorFaults), ("major_faults", r.majorFaults)]⟩ := by
  obtain ⟨-, -, hmajor, -, hend⟩ := endsNumber_separators
  exact handleStats_reply .getPageFaultsInfo format_PAGE_FAULTS_INFO format_PAGE_FAULTS_INFO_SCAN
    hend (by simp [hmajor]) rfl rfl rfl _ _ buffer

theorem handleMemoryPagesInfo_reply (r : MemoryPagesInfo) (buffer : Buffer 128)
    (active inactive : UInt64) :
    handleMemoryPagesInfo (statsReply r.text buffer SYSTEM_INFO_SIZE) active inactive =
      some ⟨"memory_pages_info", [("active", r.active), ("inactive", r.inactive)]⟩ := by
  obtain ⟨-, -, -, hinactive, hend⟩ := endsNumber_separators
  exact handleStats_reply .getMemoryPagesInfo format_MEMORY_PAGES_INFO
    format_MEMORY_PAGES_INFO_SCAN hend (by simp [hinactive]) rfl rfl rfl _ _ buffer

/-- A text that fits its array together with the NUL. -/
theorem text_length_lt (call : StatsCall) {ns : List UInt64}
    (h : ns.length = call.conversions) : (statsText call.format ns).length + 1 ≤ call.size := by
  have hlen := StatsCall.textLength_eq h
  have hfits := StatsCall.text_fits h
  omega

/-- **Swap, page-fault and memory-page texts decode to their own numbers**: for all values of the
    printed fields and whatever the kernel's array and the handler's variables contained before. -/
theorem statistics_decode :
    (∀ (r : SwapInfo) (buffer : Buffer 128) (total used freeMemory : UInt64),
      r.text.length + 1 ≤ 128 ∧
      handleSwapInfo (statsReply r.text buffer SYSTEM_INFO_SIZE) total used freeMemory =
        some ⟨"swap_info", [("total", r.total), ("used", r.used), ("free", r.free)]⟩) ∧
    (∀ (r : PageFaultsInfo) (buffer : Buffer 128) (minorFaults majorFaults : UInt64),
      r.text.length + 1 ≤ 128 ∧
      handlePageFaultsInfo (statsReply r.text buffer SYSTEM_INFO_SIZE) minorFaults majorFaults =
        some ⟨"page_faults_info",
          [("minor_faults", r.minorFaults), ("major_faults", r.majorFaults)]⟩) ∧
    ∀ (r : MemoryPagesInfo) (buffer : Buffer 128) (active inactive : UInt64),
      r.text.length + 1 ≤ 128 ∧
      handleMemoryPagesInfo (statsReply r.text buffer SYSTEM_INFO_SIZE) active inactive =
        some ⟨"memory_pages_info", [("active", r.active), ("inactive", r.inactive)]⟩ := by
  refine ⟨fun r buffer a b c => ⟨?_, handleSwapInfo_reply r buffer a b c⟩,
    fun r buffer a b => ⟨?_, handlePageFaultsInfo_reply r buffer a b⟩,
    fun r buffer a b => ⟨?_, handleMemoryPagesInfo_reply r buffer a b⟩⟩
  · exact text_length_lt .getSwapInfo rfl
  · exact text_length_lt .getPageFaultsInfo rfl
  · exact text_length_lt .getMemoryPagesInfo rfl

end UsacSyscalls.Stats
