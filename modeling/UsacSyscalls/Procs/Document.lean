import UsacSyscalls.Procs.Call

/-!
# The text of `procesos_info`

* `document` — the whole text for a list of collected processes.
* `printProcs_spec` — the loop appends the entries of the first five processes, cut off at the
  end of the buffer.
* `procesosInfo_eq` — what a call delivers for every buffer that `kmalloc` provides.
-/

set_option autoImplicit false

namespace UsacSyscalls.Procs

open Lib.CString Lib.Format

/-! ## The whole text -/

/-- The entries of some processes, with a comma after each but the last. -/
def entriesText : List ProcMemInfo → Bytes
  | [] => []
  | [p] => processText p (bytes "")
  | p :: q :: ps => processText p (bytes ",") ++ entriesText (q :: ps)

/-- The processes that are printed. -/
def shown (procs : List ProcMemInfo) : List ProcMemInfo := procs.take 5

def document (procs : List ProcMemInfo) : Bytes :=
  headerText ++ entriesText (shown procs) ++ footerText

/-! ## The formats -/

theorem format_PROCESS : format PROCESS_FORMAT =
    lits "    \x7b \"pid\": " ++ .d :: (lits ", \"name\": \"" ++ .s :: (lits "\", \"rss\": " ++ .lu ::
      (lits ", \"cpu_time\": " ++ .lu :: (lits ", \"cpu_percentage\": " ++ .lu ::
        (lits " \x7d" ++ [.s, .lit 10]))))) := by
  delta PROCESS_FORMAT
  rw [format, String.toList_append]
  simp [parseChars, lits, bytes]

theorem headerText_eq : headerText = bytes HEADER_FORMAT := by
  simp [headerText, format, HEADER_FORMAT, parseChars, printf, bytes]

theorem footerText_eq : footerText = [32, 32, 93, 10, 125, 10] := by
  simp [footerText, format, FOOTER_FORMAT, parseChars, printf]

theorem bytes_separator : bytes "" = [] ∧ bytes "," = [44] := by
  simp [bytes]

theorem zero_not_mem_headerText : (0 : UInt8) ∉ headerText := by
  rw [headerText_eq]
  simp [bytes, HEADER_FORMAT]

theorem zero_not_mem_footerText : (0 : UInt8) ∉ footerText := by
  rw [footerText_eq]
  decide

theorem lit_zero_not_mem_format : .lit 0 ∉ format PROCESS_FORMAT := by
  rw [format_PROCESS]
  simp [lits, bytes]

theorem zero_not_mem_processText (p : ProcMemInfo) {sep : Bytes} (h : (0 : UInt8) ∉ sep) :
    (0 : UInt8) ∉ processText p sep := by
  refine zero_not_mem_printf _ _ lit_zero_not_mem_format fun text ht => ?_
  simp only [List.mem_cons, reduceCtorEq, Arg.s.injEq, List.not_mem_nil, false_or, or_false] at ht
  rcases ht with rfl | rfl
  · exact p.comm.noNul
  · exact h

theorem zero_not_mem_bytes_separator : (0 : UInt8) ∉ bytes "" ∧ (0 : UInt8) ∉ bytes "," := by
  rw [bytes_separator.1, bytes_separator.2]
  decide

theorem zero_not_mem_separator (i n : Nat) : (0 : UInt8) ∉ separator i n := by
  unfold separator
  split
  · exact zero_not_mem_bytes_separator.1
  · exact zero_not_mem_bytes_separator.2

theorem zero_not_mem_entriesText : ∀ ps : List ProcMemInfo, (0 : UInt8) ∉ entriesText ps
  | [] => List.not_mem_nil
  | [p] => zero_not_mem_processText p zero_not_mem_bytes_separator.1
  | p :: q :: ps => by
    rw [entriesText, List.mem_append, not_or]
    exact ⟨zero_not_mem_processText p zero_not_mem_bytes_separator.2,
      zero_not_mem_entriesText (q :: ps)⟩

theorem zero_not_mem_document (procs : List ProcMemInfo) : (0 : UInt8) ∉ document procs := by
  unfold document
  rw [List.mem_append, List.mem_append, not_or, not_or]
  exact ⟨⟨zero_not_mem_headerText, zero_not_mem_entriesText _⟩, zero_not_mem_footerText⟩

/-- The length of an entry: 71 characters of the format, the name, the separator, and the digits
    of an `int` and three `unsigned long`s. -/
theorem processText_length (p : ProcMemInfo) {sep : Bytes} (h : sep.length ≤ 15) :
    (processText p sep).length ≤ 172 := by
  have hwidth : ((format PROCESS_FORMAT).map (Directive.width 15)).sum = 172 := by
    rw [format_PROCESS]
    simp [lits, bytes, Directive.width]
  rw [← hwidth]
  refine printf_length_le 15 _ _ fun text ht => ?_
  simp only [List.mem_cons, reduceCtorEq, Arg.s.injEq, List.not_mem_nil, false_or, or_false] at ht
  rcases ht with rfl | rfl
  · exact Nat.le_of_lt_succ p.comm.length_lt
  · exact h

theorem entriesText_length : ∀ ps : List ProcMemInfo, (entriesText ps).length ≤ 172 * ps.length
  | [] => Nat.le_refl 0
  | [p] => processText_length p (by rw [bytes_separator.1]; decide)
  | p :: q :: ps => by
    have hp := processText_length p (show (bytes ",").length ≤ 15 by
      rw [bytes_separator.2]
      decide)
    have hps := entriesText_length (q :: ps)
    rw [entriesText, List.length_append, List.length_cons]
    omega

/-- **Every document is shorter than the buffer of the backend.** -/
theorem document_length (procs : List ProcMemInfo) : (document procs).length ≤ 905 := by
  have hheader : headerText.length = 39 := by
    rw [headerText_eq]
    simp [bytes, HEADER_FORMAT]
  have hfooter : footerText.length = 6 := by
    rw [footerText_eq]
    rfl
  have hentries := entriesText_length (shown procs)
  have hshown : (shown procs).length ≤ 5 := List.length_take_le 5 procs
  unfold document
  rw [List.length_append, List.length_append]
  omega

/-- One more entry at the front; its separator says whether others follow. -/
theorem entriesText_cons (p : ProcMemInfo) (ps : List ProcMemInfo) :
    entriesText (p :: ps) =
      processText p (if ps = [] then bytes "" else bytes ",") ++ entriesText ps := by
  cases ps with
  | nil => exact (List.append_nil _).symm
  | cons q ps => rfl

/-- Behind the fifth process, or the last one, there is nothing left to print. -/
theorem shown_drop_nil {procs : List ProcMemInfo} {i : Nat} (h : 5 ≤ i ∨ procs.length ≤ i) :
    (shown procs).drop i = [] := by
  rw [List.drop_eq_nil_iff, shown, List.length_take]
  omega

/-- The entries from position `i` on. -/
theorem entriesText_drop {procs : List ProcMemInfo} {i : Nat} {p : ProcMemInfo} (hi : i < 5)
    (hp : procs[i]? = some p) :
    entriesText ((shown procs).drop i) =
      processText p (separator i procs.length) ++ entriesText ((shown procs).drop (i + 1)) := by
  obtain ⟨hlt, rfl⟩ := List.getElem?_eq_some_iff.mp hp
  have hlen : i < (shown procs).length := by
    rw [shown, List.length_take]; omega
  have hget : (shown procs)[i] = procs[i] := List.getElem_take
  have hsep : (if (shown procs).drop (i + 1) = [] then bytes "" else bytes ",") =
      separator i procs.length := by
    unfold separator
    have hiff : (shown procs).drop (i + 1) = [] ↔ i = 4 ∨ i + 1 = procs.length := by
      rw [List.drop_eq_nil_iff, shown, List.length_take]
      omega
    simp only [hiff]
  rw [List.drop_eq_getElem_cons hlen, hget, entriesText_cons, hsep]

/-! ## The loop -/

theorem appendText_spec {buffer t u : Bytes} (h : Holds buffer (t.take (buffer.length - 1)))
    (hu : (0 : UInt8) ∉ u) :
    ∃ buffer', appendText buffer u = some buffer' ∧ buffer'.length = buffer.length ∧
      Holds buffer' ((t ++ u).take (buffer'.length - 1)) := by
  refine ⟨_, by rw [appendText, h.strlen_eq, Option.map_some], snprintf_length _ _ _, ?_⟩
  rw [snprintf_length]
  exact h.snprintf_take hu

/-- **The loop appends the remaining entries**, as far as the buffer has room, and lists their
    positions. -/
theorem printProcs_spec (procs : List ProcMemInfo) : ∀ (k i : Nat) (out : Output) (t : Bytes),
    i + k = 5 → Holds out.buffer (t.take (out.buffer.length - 1)) →
    ∃ buffer', printProcs procs (List.range' i k) out =
        some ⟨buffer', out.listed ++ List.range' i (min 5 procs.length - i)⟩ ∧
      buffer'.length = out.buffer.length ∧
      Holds buffer' ((t ++ entriesText ((shown procs).drop i)).take (buffer'.length - 1))
  | 0, i, out, t, hi, h => by
    refine ⟨out.buffer, ?_, rfl, ?_⟩
    · rw [show min 5 procs.length - i = 0 by omega]
      simp only [List.range'_zero, printProcs, List.append_nil]
    · rw [shown_drop_nil (Or.inl (by omega)), entriesText, List.append_nil]
      exact h
  | k + 1, i, out, t, hi, h => by
    rw [List.range'_succ, printProcs]
    cases hp : procs[i]? with
    | none =>
      have hge := List.getElem?_eq_none_iff.mp hp
      refine ⟨out.buffer, ?_, rfl, ?_⟩
      · rw [show min 5 procs.length - i = 0 by omega]
        simp only [List.range'_zero, List.append_nil]
      · rw [shown_drop_nil (Or.inr hge), entriesText, List.append_nil]
        exact h
    | some p =>
      obtain ⟨buffer, happ, hlen, hholds⟩ := appendText_spec h
        (zero_not_mem_processText p (zero_not_mem_separator i procs.length))
      obtain ⟨buffer', hrest, hlen', hholds'⟩ := printProcs_spec procs k (i + 1)
        ⟨buffer, out.listed ++ [i]⟩ _ (by omega) hholds
      have hlt := (List.getElem?_eq_some_iff.mp hp).1
      refine ⟨buffer', ?_, hlen'.trans hlen, ?_⟩
      · simp only [happ, hrest, List.append_assoc, List.singleton_append]
        rw [show min 5 procs.length - i = min 5 procs.length - (i + 1) + 1 by omega,
          List.range'_succ]
      · rw [entriesText_drop (by omega) hp, ← List.append_assoc]
        exact hholds'

/-! ## The whole call -/

/-- `int output_size = size`, as `kmalloc` receives it. -/
def outputSize (size : UInt64) : Nat := toSizeT (toInt size.toNat)

/-- **What a call delivers** once the processes are collected and the buffer is there: the
    document, cut off where the buffer ends. -/
theorem procesosInfo_eq {m : Machine} {table : List Task} {size : UInt64}
    {procs : List ProcMemInfo} (hprocs : obtenerInfoProcesos m table = some (.ok procs))
    (hmem : m.kmalloc (outputSize size) = true) (hpos : 0 < outputSize size) :
    procesosInfo m table size = some
      { copyToUser m.accepts ((document procs).take (outputSize size - 1)) with
        listed := List.range (min 5 procs.length) } := by
  obtain ⟨output, houtput⟩ : ∃ output,
      output = snprintf ((List.range (outputSize size)).map m.heap) 0 headerText := ⟨_, rfl⟩
  have hlen : output.length = outputSize size := by
    rw [houtput, snprintf_length, List.length_map, List.length_range]
  have hstart : Holds output (headerText.take (output.length - 1)) := by
    have := holds_snprintf_zero ((List.range (outputSize size)).map m.heap)
      (by rw [List.length_map, List.length_range]; exact hpos) zero_not_mem_headerText
    rwa [← houtput, List.length_map, List.length_range, ← hlen] at this
  obtain ⟨buffer, hprint, hlen₁, hholds₁⟩ :=
    printProcs_spec procs 5 0 ⟨output, []⟩ headerText rfl hstart
  obtain ⟨buffer', happ, hlen₂, hholds₂⟩ := appendText_spec hholds₁ zero_not_mem_footerText
  have hsize : buffer'.length = outputSize size := (hlen₂.trans hlen₁).trans hlen
  rw [hsize, List.drop_zero] at hholds₂
  have htake : buffer'.take ((document procs).take (outputSize size - 1)).length =
      (document procs).take (outputSize size - 1) := by
    obtain ⟨rest, hbuf⟩ := hholds₂.starts
    rw [hbuf]
    exact List.take_left
  unfold procesosInfo
  rw [hprocs]
  simp only [← outputSize.eq_1, hmem, if_true, ← houtput]
  have hrange : List.range' 0 5 = [0, 1, 2, 3, 4] := rfl
  rw [hrange] at hprint
  simp only [hprint, happ, hholds₂.strlen_eq, List.nil_append, Nat.sub_zero, List.range_eq_range']
  simp only [document] at htake
  rw [htake]
  rfl

/-- A buffer with room for the document and its NUL receives the whole document. -/
theorem procesosInfo_fits {m : Machine} {table : List Task} {size : UInt64}
    {procs : List ProcMemInfo} (hprocs : obtenerInfoProcesos m table = some (.ok procs))
    (hmem : m.kmalloc (outputSize size) = true)
    (hfits : (document procs).length < outputSize size) :
    procesosInfo m table size = some
      { copyToUser m.accepts (document procs) with
        listed := List.range (min 5 procs.length) } := by
  rw [procesosInfo_eq hprocs hmem (by omega), List.take_of_length_le (by omega)]

/-- A call that returns 0 has collected the processes and got its buffer. -/
theorem collected_of_ret_zero {m : Machine} {table : List Task} {size : UInt64} {reply : ProcReply}
    (h : procesosInfo m table size = some reply) (hret : reply.ret = 0) :
    ∃ procs, obtenerInfoProcesos m table = some (.ok procs) ∧
      m.kmalloc (outputSize size) = true := by
  unfold procesosInfo at h
  simp only [← outputSize.eq_1] at h
  split at h
  · cases h
  · rename_i e _
    cases h
    exact absurd hret (Int.ne_of_lt e.ret_neg)
  · rename_i procs hprocs
    split at h
    · rename_i hmem
      exact ⟨procs, hprocs, hmem⟩
    · cases h
      exact absurd hret (Int.ne_of_lt ENOMEM.ret_neg)

end UsacSyscalls.Procs
