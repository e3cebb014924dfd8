import UsacSyscalls.Procs.TopFive

/-!
# The bounds of `procesos_info`

`procesos_info` with the arithmetic of its bounds as the code has it: `output_size` is an `int`,
`strlen` a `size_t`, and their difference the bound of an `snprintf` behind the text so far.  An
access outside of `output` ends the call, as a division by zero does.

* `Prints` — what holds between two `snprintf` calls: the buffer has its size and starts with the
  text so far, cut off at its end, and nothing has been cut off as long as the text fits.
* `procesosInfoBody_eq` — what a call with a buffer that is not empty delivers.
* `procesosInfo_eq_checked` — the bounds agree with the room left in the buffer, so that
  `procesosInfo` gives the same replies.
-/

set_option autoImplicit false

namespace UsacSyscalls.Procs

open Lib.CString Lib.Format

/-! ## The call -/

/-- Why the calling thread dies in the kernel. -/
inductive Oops where
  | divide
  /-- An access outside of `output`. -/
  | outside
  deriving DecidableEq, Repr

/-- The output buffer, and the bound and the text of each `snprintf` so far. -/
structure Printed where
  buffer : Bytes
  calls : List (Nat × Bytes)

/-- `snprintf(output + off, bound, ...)`. -/
def Printed.store (off bound : Nat) (text : Bytes) (out : Printed) : Option Printed :=
  (snprintfAt out.buffer off bound text).map fun buffer =>
    { buffer := buffer, calls := out.calls ++ [(bound, text)] }

/-- `snprintf(output + strlen(output), output_size - strlen(output), ...)`. -/
def Printed.append (outputSize : Int) (text : Bytes) (out : Printed) : Option Printed :=
  match strlen out.buffer with
  | none => none
  | some off => out.store off (toSizeT (outputSize - off)) text

/-- The loop over the processes, for the values of `i` that are left. -/
def printEntries (outputSize : Int) (procs : List ProcMemInfo) :
    List Nat → Printed → Option Printed
  | [], out => some out
  | i :: is, out =>
    match procs[i]? with
    | none => some out
    | some p =>
      match out.append outputSize (processText p (separator i procs.length)) with
      | none => none
      | some out => printEntries outputSize procs is out

/-- All the `snprintf` calls. -/
def printDocument (outputSize : Int) (procs : List ProcMemInfo) (buffer : Bytes) :
    Option Printed :=
  match Printed.store 0 (toSizeT outputSize) headerText { buffer := buffer, calls := [] } with
  | none => none
  | some out =>
    match printEntries outputSize procs [0, 1, 2, 3, 4] out with
    | none => none
    | some out => out.append outputSize footerText

/-- What a call returns and delivers, and the bound and the text of each of its `snprintf`
    calls. -/
structure Answer extends Reply where
  calls : List (Nat × Bytes)
  deriving DecidableEq, Repr

/-- `procesos_info` once the processes are collected; `none` is an access outside of `output`. -/
def procesosInfoBody (m : Machine) (procs : List ProcMemInfo) (size : UInt64) : Option Answer :=
  let outputSize := toInt size.toNat
  let n := toSizeT outputSize
  if m.kmalloc n then
    match printDocument outputSize procs ((List.range n).map m.heap) with
    | none => none
    | some out =>
      match strlen out.buffer with
      | none => none
      | some len => some { copyToUser m.accepts (out.buffer.take len) with calls := out.calls }
  else some { ret := ENOMEM.ret, delivered := [], calls := [] }

/-- `procesos_info`. -/
def procesosInfoChecked (m : Machine) (table : List Task) (size : UInt64) : Except Oops Answer :=
  match obtenerInfoProcesos m table with
  | none => .error .divide
  | some (.error e) => .ok { ret := e.ret, delivered := [], calls := [] }
  | some (.ok procs) =>
    match procesosInfoBody m procs size with
    | none => .error .outside
    | some answer => .ok answer

/-! ## The size of the buffer -/

theorem size_le_of_kmalloc {m : Machine} {size : UInt64}
    (h : m.kmalloc (outputSize size) = true) :
    outputSize size ≤ KMALLOC_MAX_SIZE := by
  by_contra hgt
  have hnone := m.kmalloc_max _ (Nat.not_le.mp hgt)
  rw [h] at hnone
  cases hnone

/-- A size that `kmalloc` serves is the number that `output_size` stands for. -/
theorem toInt_of_kmalloc {m : Machine} {size : UInt64} (h : m.kmalloc (outputSize size) = true) :
    toInt size.toNat = outputSize size ∧ outputSize size = size.toNat % 2 ^ 32 := by
  have hmax := size_le_of_kmalloc h
  unfold KMALLOC_MAX_SIZE at hmax
  unfold outputSize toSizeT at hmax ⊢
  have hlo := Int.le_bmod (x := size.toNat) (m := 2 ^ 32) (by decide)
  have hhi := Int.bmod_lt (x := size.toNat) (m := 2 ^ 32) (by decide)
  have hmod := Int.bmod_emod (x := size.toNat) (m := 2 ^ 32)
  unfold toInt at hmax ⊢
  generalize Int.bmod (size.toNat : Int) (2 ^ 32) = x at hmax hlo hhi hmod ⊢
  omega

/-! ## Between two `snprintf` calls -/

/-- The buffer of `n` bytes after the text `t` has been printed into it. -/
structure Prints (n : Nat) (out : Printed) (t : Bytes) : Prop where
  length : out.buffer.length = n
  holds : Holds out.buffer (t.take (n - 1))
  complete : t.length < n → ∀ call ∈ out.calls, call.2.length < call.1
  texts : (out.calls.map Prod.snd).flatten = t

section Print

variable {n : Nat}

theorem toSizeT_sub (hn : n ≤ KMALLOC_MAX_SIZE) {k : Nat} (hk : k ≤ n) :
    toSizeT ((n : Int) - k) = n - k := by
  unfold KMALLOC_MAX_SIZE at hn
  have hnat := toSizeT_of_bounds (x := (n : Int) - k) (by omega) (by omega)
  omega

/-- The first text. -/
theorem Prints.start {buffer u : Bytes} (hlen : buffer.length = n) (hpos : 0 < n)
    (hn : n ≤ KMALLOC_MAX_SIZE) (hu : (0 : UInt8) ∉ u) :
    ∃ out, Printed.store 0 (toSizeT n) u { buffer := buffer, calls := [] } = some out ∧
      Prints n out u := by
  have hbound : toSizeT n = buffer.length - 0 := by
    have hsub := toSizeT_sub hn (Nat.zero_le n)
    rw [hlen]
    simpa only [Int.natCast_zero, Int.sub_zero] using hsub
  refine ⟨⟨snprintf buffer 0 u, [(n, u)]⟩, ?_, ?_, ?_, ?_, ?_⟩
  · unfold Printed.store
    rw [hbound, snprintfAt_rest, hlen]
    rfl
  · exact (snprintf_length _ _ _).trans hlen
  · have hholds := holds_snprintf_zero buffer (by omega) hu
    rwa [hlen] at hholds
  · intro hfits call hcall
    rw [List.mem_singleton] at hcall
    subst hcall
    exact hfits
  · simp

/-- **An `snprintf` behind the text so far** stays in the buffer and appends, and cuts nothing off
    as long as all of the text fits. -/
theorem Prints.append {out : Printed} {t u : Bytes} (h : Prints n out t)
    (hn : n ≤ KMALLOC_MAX_SIZE) (hu : (0 : UInt8) ∉ u) :
    ∃ out', out.append n u = some out' ∧ Prints n out' (t ++ u) := by
  have hlength := h.length
  have hlt := h.holds.length_lt
  obtain ⟨off, hoff⟩ : ∃ off, off = (t.take (n - 1)).length := ⟨_, rfl⟩
  rw [← hoff] at hlt
  have hbound : toSizeT ((n : Int) - off) = out.buffer.length - off := by
    rw [toSizeT_sub hn (by omega), hlength]
  refine ⟨⟨snprintf out.buffer off u, out.calls ++ [(out.buffer.length - off, u)]⟩, ?_, ?_, ?_, ?_,
    ?_⟩
  · unfold Printed.append
    rw [h.holds.strlen_eq, ← hoff]
    simp only
    unfold Printed.store
    rw [hbound, snprintfAt_rest]
    rfl
  · exact (snprintf_length _ _ _).trans hlength
  · have hheld : Holds out.buffer (t.take (out.buffer.length - 1)) := by
      rw [hlength]
      exact h.holds
    have hholds := hheld.snprintf_take hu
    rwa [hlength, ← hoff] at hholds
  · intro hfits call hcall
    rw [List.length_append] at hfits
    rw [List.length_take] at hoff
    rcases List.mem_append.mp hcall with hold | hnew
    · exact h.complete (by omega) call hold
    · rw [List.mem_singleton] at hnew
      subst hnew
      show u.length < out.buffer.length - off
      omega
  · simp [h.texts]

/-- **The loop** appends the remaining entries. -/
theorem printEntries_spec (hn : n ≤ KMALLOC_MAX_SIZE) (procs : List ProcMemInfo) :
    ∀ (k i : Nat) (out : Printed) (t : Bytes), i + k = 5 → Prints n out t →
    ∃ out', printEntries n procs (List.range' i k) out = some out' ∧
      Prints n out' (t ++ entriesText ((shown procs).drop i))
  | 0, i, out, t, hi, h => by
    refine ⟨out, rfl, ?_⟩
    rw [shown_drop_nil (Or.inl (by omega)), entriesText, List.append_nil]
    exact h
  | k + 1, i, out, t, hi, h => by
    rw [List.range'_succ, printEntries]
    cases hp : procs[i]? with
    | none =>
      have hge := List.getElem?_eq_none_iff.mp hp
      refine ⟨out, rfl, ?_⟩
      rw [shown_drop_nil (Or.inr hge), entriesText, List.append_nil]
      exact h
    | some p =>
      obtain ⟨out₁, happ, hprints⟩ := h.append hn
        (zero_not_mem_processText p (zero_not_mem_separator i procs.length))
      obtain ⟨out₂, hrest, hprints₂⟩ := printEntries_spec hn procs k (i + 1) out₁ _ (by omega)
        hprints
      refine ⟨out₂, by simp only [happ, hrest], ?_⟩
      rw [entriesText_drop (by omega) hp, ← List.append_assoc]
      exact hprints₂

/-- All the `snprintf` calls print the document. -/
theorem printDocument_spec (hpos : 0 < n) (hn : n ≤ KMALLOC_MAX_SIZE) (procs : List ProcMemInfo)
    {buffer : Bytes} (hlen : buffer.length = n) :
    ∃ out, printDocument n procs buffer = some out ∧ Prints n out (document procs) := by
  obtain ⟨out₁, hstore, h₁⟩ := Prints.start hlen hpos hn zero_not_mem_headerText
  obtain ⟨out₂, hloop, h₂⟩ := printEntries_spec hn procs 5 0 out₁ headerText rfl h₁
  obtain ⟨out₃, happ, h₃⟩ := h₂.append hn zero_not_mem_footerText
  have hrange : List.range' 0 5 = [0, 1, 2, 3, 4] := rfl
  rw [hrange] at hloop
  refine ⟨out₃, ?_, h₃⟩
  unfold printDocument
  simp only [hstore, hloop, happ]

end Print

/-! ## The whole call -/

section Call

variable {m : Machine} {table : List Task} {size : UInt64}

/-- **What a call with a buffer that is not empty delivers**: the document, cut off where the
    buffer ends. -/
theorem procesosInfoBody_eq (procs : List ProcMemInfo)
    (hmem : m.kmalloc (outputSize size) = true) (hpos : 0 < outputSize size) :
    ∃ answer, procesosInfoBody m procs size = some answer ∧
      answer.toReply = copyToUser m.accepts ((document procs).take (outputSize size - 1)) ∧
      ((document procs).length < outputSize size →
        ∀ call ∈ answer.calls, call.2.length < call.1) ∧
      (answer.calls.map Prod.snd).flatten = document procs := by
  obtain ⟨hint, -⟩ := toInt_of_kmalloc hmem
  have hlen : ((List.range (outputSize size)).map m.heap).length = outputSize size := by simp
  obtain ⟨out, hprint, h⟩ := printDocument_spec hpos (size_le_of_kmalloc hmem) procs hlen
  have htake : out.buffer.take ((document procs).take (outputSize size - 1)).length =
      (document procs).take (outputSize size - 1) := by
    obtain ⟨rest, hbuf⟩ := h.holds.starts
    rw [hbuf]
    exact List.take_left
  have hbody : procesosInfoBody m procs size = some
      { copyToUser m.accepts ((document procs).take (outputSize size - 1)) with
        calls := out.calls } := by
    have hsize : toSizeT (outputSize size : Int) = outputSize size := by
      rw [← hint, ← outputSize.eq_1]
    unfold procesosInfoBody
    simp only [hint, hsize, hmem, if_true, hprint, h.holds.strlen_eq, htake]
  generalize copyToUser m.accepts ((document procs).take (outputSize size - 1)) = reply at hbody
  exact ⟨_, hbody, rfl, h.complete, h.texts⟩

/-- The first `strlen` leaves a buffer without bytes. -/
theorem procesosInfoBody_empty (procs : List ProcMemInfo) (hzero : outputSize size = 0) :
    procesosInfoBody m procs size = none := by
  have hmem : m.kmalloc (outputSize size) = true := by rw [hzero, m.kmalloc_zero]
  obtain ⟨hint, -⟩ := toInt_of_kmalloc hmem
  have hsize : toSizeT ((0 : Nat) : Int) = 0 := rfl
  rw [hzero] at hint
  have happend : ∀ (outputSize : Int) (text : Bytes) (calls : List (Nat × Bytes)),
      Printed.append outputSize text ⟨[], calls⟩ = none := by
    intro outputSize text calls
    simp only [Printed.append, strlen_nil]
  have hstore : ∀ text : Bytes, Printed.store 0 0 text ⟨[], []⟩ = some ⟨[], [(0, text)]⟩ := by
    intro text
    simp only [Printed.store, snprintfAt, if_true, Option.map_some, List.nil_append]
  unfold procesosInfoBody
  simp only [hint, hsize, m.kmalloc_zero, if_true, List.range_zero, List.map_nil]
  unfold printDocument
  rw [hsize, hstore]
  cases procs with
  | nil => simp only [printEntries, List.getElem?_nil, happend]
  | cons p ps => simp only [printEntries, List.getElem?_cons_zero, happend]

theorem procesosInfoBody_no_memory (procs : List ProcMemInfo)
    (hmem : m.kmalloc (outputSize size) = false) :
    procesosInfoBody m procs size = some { ret := ENOMEM.ret, delivered := [], calls := [] } := by
  have hn : ¬ m.kmalloc (outputSize size) = true := by
    rw [hmem]
    exact Bool.false_ne_true
  unfold procesosInfoBody
  exact if_neg hn

/-- `procesosInfo` reads beyond a buffer without bytes as well. -/
theorem procesosInfo_empty {procs : List ProcMemInfo}
    (hprocs : obtenerInfoProcesos m table = some (.ok procs)) (hzero : outputSize size = 0) :
    procesosInfo m table size = none := by
  have hmem : m.kmalloc (outputSize size) = true := by rw [hzero, m.kmalloc_zero]
  obtain ⟨hint, -⟩ := toInt_of_kmalloc hmem
  have hsize : toSizeT ((0 : Nat) : Int) = 0 := rfl
  rw [hzero] at hint
  unfold procesosInfo
  rw [hprocs, hint]
  have hstore : ∀ text : Bytes, snprintf [] 0 text = [] := by
    intro text
    simp only [snprintf, List.length_nil, Nat.lt_irrefl, if_false]
  simp only [hsize, m.kmalloc_zero, if_true, List.range_zero, List.map_nil, hstore]
  cases procs with
  | nil => simp only [printProcs, List.getElem?_nil, appendText, strlen_nil, Option.map_none]
  | cons p ps =>
    simp only [printProcs, List.getElem?_cons_zero, appendText, strlen_nil, Option.map_none]

/-- **The bounds agree with the room left in the buffer**: `procesosInfo` gives the same replies,
    and ends without one on the same inputs. -/
theorem procesosInfo_eq_checked (m : Machine) (table : List Task) (size : UInt64) :
    (procesosInfo m table size).map ProcReply.toReply =
      (procesosInfoChecked m table size).toOption.map Answer.toReply := by
  unfold procesosInfoChecked
  cases hprocs : obtenerInfoProcesos m table with
  | none =>
    unfold procesosInfo
    rw [hprocs]
    rfl
  | some result =>
    cases result with
    | error e =>
      unfold procesosInfo
      rw [hprocs]
      rfl
    | ok procs =>
      simp only
      cases hmem : m.kmalloc (outputSize size) with
      | false =>
        rw [procesosInfoBody_no_memory procs hmem]
        unfold procesosInfo
        simp only [hprocs, ← outputSize.eq_1, hmem, Bool.false_eq_true, if_false]
        rfl
      | true =>
        rcases Nat.eq_zero_or_pos (outputSize size) with hzero | hpos
        · rw [procesosInfo_empty hprocs hzero, procesosInfoBody_empty procs hzero]
          rfl
        · obtain ⟨answer, hbody, hreply, -⟩ := procesosInfoBody_eq procs hmem hpos
          rw [procesosInfo_eq hprocs hmem hpos, hbody]
          simp only [Option.map_some, Except.toOption, hreply]

end Call

end UsacSyscalls.Procs
