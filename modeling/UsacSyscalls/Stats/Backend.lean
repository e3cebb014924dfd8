import UsacSyscalls.Stats.Calls
import UsacSyscalls.Backend.SystemInfo

/-!
# The backend's reading of `get_ram_stats`

Reference model of `handle_ram_stats` of `Api/Backend/api_syscalls.c`: the text of the system call
is scanned with a format of the backend's own, which has no field for the buffers.

* `handleRamStats_reply` — what is decoded from every reply.
* `not_decodesRamStats` — the percentage is never the one that was printed.
-/

set_option autoImplicit false

namespace UsacSyscalls.Stats

open Lib.CString Lib.Format Lib.Decimal Backend

def RAM_STATS_SCAN : String :=
  "\"ram_stats\": \x7b\n  \"total\": %lu,\n  \"used\": %lu,\n  \"free\": %lu,\n" ++
  "  \"cache\": %lu,\n  \"percentage_used\": %lu\n\x7d"

/-- The local variables of `handle_ram_stats`, also the numbers it hands to
    `cJSON_AddNumberToObject`. -/
structure RamNumbers where
  total : UInt64
  used : UInt64
  freeMemory : UInt64
  cache : UInt64
  percentageUsed : UInt64
  deriving DecidableEq, Repr

/-- `handle_ram_stats` on a reply, from the initial contents of its local variables. -/
def handleRamStats (reply : Reply) (init : RamNumbers) : Option RamNumbers :=
  (getSystemInfo reply).map fun ramStatsStr =>
    let vars := scanf (format RAM_STATS_SCAN) ramStatsStr
      [init.total, init.used, init.freeMemory, init.cache, init.percentageUsed]
    { total := vars.getD 0 init.total
      used := vars.getD 1 init.used
      freeMemory := vars.getD 2 init.freeMemory
      cache := vars.getD 3 init.cache
      percentageUsed := vars.getD 4 init.percentageUsed }

/-- The reply of `get_ram_stats` with these numbers to `get_system_info`. -/
def ramReply (r : RamStats) (buffer : Buffer 256) : Reply :=
  statsReply r.text buffer SYSTEM_INFO_SIZE

/-! ## The two formats -/

theorem format_RAM_STATS : format RAM_STATS_FORMAT =
    lits "\"ram_stats\": \x7b\n  \"total\": " ++ .lu :: (lits ",\n  \"used\": " ++ .lu ::
      (lits ",\n  \"free\": " ++ .lu :: (lits ",\n  \"cache\": " ++ .lu ::
        (lits ",\n  \"" ++ (lits "buffers\": " ++ .lu ::
          (lits ",\n  \"percentage_used\": " ++ .lu :: lits "\n\x7d\n")))))) := by
  delta RAM_STATS_FORMAT
  simp only [format, String.toList_append]
  simp [parseChars, lits, bytes]

theorem format_RAM_STATS_SCAN : format RAM_STATS_SCAN =
    lits "\"ram_stats\": \x7b\n  \"total\": " ++ .lu :: (lits ",\n  \"used\": " ++ .lu ::
      (lits ",\n  \"free\": " ++ .lu :: (lits ",\n  \"cache\": " ++ .lu ::
        (lits ",\n  \"" ++ (lits "percentage_used\": " ++ .lu :: lits "\n\x7d"))))) := by
  delta RAM_STATS_SCAN
  simp only [format, String.toList_append]
  simp [parseChars, lits, bytes]

theorem ramStats_text (r : RamStats) : r.text =
    bytes "\"ram_stats\": \x7b\n  \"total\": " ++ (decimal r.total.toNat ++
      (bytes ",\n  \"used\": " ++ (decimal r.used.toNat ++
        (bytes ",\n  \"free\": " ++ (decimal r.free.toNat ++
          (bytes ",\n  \"cache\": " ++ (decimal r.cache.toNat ++
            (bytes ",\n  \"" ++ (bytes "buffers\": " ++ (decimal r.buffers.toNat ++
              (bytes ",\n  \"percentage_used\": " ++ (decimal r.percentageUsed.toNat ++
                bytes "\n\x7d\n")))))))))))) := by
  have hlast : printf (lits "\n\x7d\n") [] = bytes "\n\x7d\n" := by
    rw [← List.append_nil (lits _), printf_lits]
    exact List.append_nil _
  rw [RamStats.text, statsText, format_RAM_STATS]
  simp only [List.map_cons, List.map_nil, printf_lits, printf, hlast]

/-- The text of a call reaches the scan unchanged. -/
theorem getSystemInfo_statsReply {call : StatsCall} {ns : List UInt64}
    (hns : ns.length = call.conversions) (buffer : Buffer call.size) :
    getSystemInfo (statsReply (statsText call.format ns) buffer SYSTEM_INFO_SIZE) =
      some (statsText call.format ns) := by
  have hlen := StatsCall.textLength_eq hns
  have hfits := StatsCall.text_fits hns
  have hsize : call.size ≤ SYSTEM_INFO_SIZE := by cases call <;> decide
  have hsnprintf := snprintf_fits (statsText call.format ns) buffer (by omega)
  have hreply : statsReply (statsText call.format ns) buffer SYSTEM_INFO_SIZE =
      ⟨0, snprintf buffer.val 0 (statsText call.format ns)⟩ := by
    unfold statsReply
    refine copyToUser_all ?_
    rw [snprintf_length, buffer.property]
    exact hsize
  rw [hreply]
  exact getSystemInfo_eq rfl (StatsCall.text_noNul hns) (.inl ⟨_, hsnprintf⟩)

theorem getSystemInfo_ramReply (r : RamStats) (buffer : Buffer 256) :
    getSystemInfo (ramReply r buffer) = some r.text := by
  let ns := [r.total, r.used, r.free, r.cache, r.buffers, r.percentageUsed]
  have hns : ns.length = StatsCall.getRamStats.conversions := rfl
  exact getSystemInfo_statsReply hns buffer

/-- **What is decoded**: the first four numbers, and a percentage that was never assigned. -/
theorem handleRamStats_reply (r : RamStats) (buffer : Buffer 256) (init : RamNumbers) :
    handleRamStats (ramReply r buffer) init =
      some ⟨r.total, r.used, r.free, r.cache, init.percentageUsed⟩ := by
  have hcomma : ∀ (text : String) (rest : Bytes), (bytes text).head? = some 44 →
      NoDigit (bytes text ++ rest) := fun text rest h => noDigit_append h (by decide) rest
  have hscan : scanf (format RAM_STATS_SCAN) r.text
      [init.total, init.used, init.freeMemory, init.cache, init.percentageUsed] =
      [r.total, r.used, r.free, r.cache, init.percentageUsed] := by
    have hp : lits "percentage_used\": " = .lit 112 :: lits "ercentage_used\": " := by
      simp [lits, bytes]
    have hb : bytes "buffers\": " = 98 :: bytes "uffers\": " := by
      simp [bytes]
    rw [ramStats_text, format_RAM_STATS_SCAN, scanf_lits _ _ (noSpace_decimal _ _),
      scanf_decimal _ _ _ (hcomma _ _ (by simp [bytes])), scanf_lits _ _ (noSpace_decimal _ _),
      scanf_decimal _ _ _ (hcomma _ _ (by simp [bytes])), scanf_lits _ _ (noSpace_decimal _ _),
      scanf_decimal _ _ _ (hcomma _ _ (by simp [bytes])), scanf_lits _ _ (noSpace_decimal _ _),
      scanf_decimal _ _ _ (hcomma _ _ (by simp [bytes])),
      scanf_lits _ _ (noSpace_append (by rw [hb]; rfl) (by decide) _), hp, hb]
    -- the text goes on with the buffers, the format with the percentage
    simp only [List.cons_append, scanf_mismatch _ (show isSpace 112 = false by decide)
      (show (98 : UInt8) ≠ 112 by decide)]
  unfold handleRamStats
  rw [getSystemInfo_ramReply, Option.map_some, hscan]
  rfl

/-! ## The decoded numbers and the printed ones -/

/-- Whatever the local variables contained, every number that is handed on is the one printed
    under its name. -/
def DecodesRamStats (r : RamStats) (buffer : Buffer 256) : Prop :=
  ∀ init : RamNumbers, handleRamStats (ramReply r buffer) init =
    some ⟨r.total, r.used, r.free, r.cache, r.percentageUsed⟩

/-- **The text never decodes to its own numbers**: the percentage is what the variable contained. -/
theorem not_decodesRamStats (r : RamStats) (buffer : Buffer 256) : ¬ DecodesRamStats r buffer := by
  intro h
  have hdecoded := h ⟨0, 0, 0, 0, r.percentageUsed + 1⟩
  rw [handleRamStats_reply] at hdecoded
  simp only [Option.some.injEq, RamNumbers.mk.injEq, true_and] at hdecoded
  have hne : ∀ x : UInt64, x + 1 ≠ x := by
    intro x hx
    have := congrArg UInt64.toNat hx
    rw [UInt64.toNat_add] at this
    have := x.toNat_lt
    have h1 : (1 : UInt64).toNat = 1 := rfl
    omega
  exact hne _ hdecoded

/-- A machine with 8 GiB of which half are used, read into variables that contain 7. -/
theorem not_decodes_half_used :
    ¬ ∀ buffer init, handleRamStats (ramReply
      ⟨8589934592, 4294967296, 2147483648, 1073741824, 1073741824, 50⟩ buffer) init =
        some ⟨8589934592, 4294967296, 2147483648, 1073741824, 50⟩ := by
  intro h
  have hdecoded := h (filled 256 0) ⟨7, 7, 7, 7, 7⟩
  rw [handleRamStats_reply] at hdecoded
  revert hdecoded
  decide

end UsacSyscalls.Stats
