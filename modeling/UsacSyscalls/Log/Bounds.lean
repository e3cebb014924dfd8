import UsacSyscalls.Log.Quiet

/-!
# The bounds of the copying pass

Here `kmsg_dump_get_line` may answer anything: the two passes are given any lines, as many as
there are, and need not be given the same.

* `Dump` — a call with the lines that its second pass has been given.
* `reach_loopBounds` — the offset stays inside the output buffer, which starts with whole lines of
  the second pass; and what is returned is the number of bytes delivered.
* `reach_dump` — the log with its writers is one source of such answers.
-/

set_option autoImplicit false

namespace UsacSyscalls.Log

open Lib Lib.Run

/-! ## Any answers -/

/-- A call, and the lines that its second pass has been given. -/
structure Dump where
  call : State
  delivered : List Line

def Dump.init (log : RingBuffer Record) : Dump := ⟨.init log, []⟩

/-- One step of a call, with the answer of `kmsg_dump_get_line`. -/
def dumpStep (m : Machine) (bufferLength : UInt64) (next : Option (Line × Nat)) (d : Dump) :
    Option Dump :=
  (callWith m bufferLength next d.call).map fun s =>
    { call := s
      delivered :=
        match d.call.pc, next with
        | .copy, some (line, _) => d.delivered ++ [line]
        | _, _ => d.delivered }

/-- At the head of the second loop, or behind it. -/
def Pc.InSecondLoop (pc : Pc) : Prop := pc = .copy ∨ pc = .deliver

/-- What the second loop keeps to. -/
structure LoopBounds (bufferLength : UInt64) (d : Dump) : Prop where
  /-- `0 <= output_offset < buffer_length`. -/
  offset : d.call.pc.InSecondLoop →
    0 ≤ d.call.outputOffset ∧ d.call.outputOffset < bufferLength.toNat
  /-- The bytes before `output_offset` are whole lines of the second pass, in their order. -/
  whole : d.call.pc.InSecondLoop → ∃ lines : List Line, lines.Sublist d.delivered ∧
    d.call.outputBuffer.take d.call.outputOffset.toNat = text lines
  /-- `output_offset + current_line_length >= buffer_length`, which is computed as a `size_t`, is
      true of the numbers. -/
  comparison : d.call.pc = .copy → ∀ line : Line,
    (bufferLength.toNat ≤ toSizeT (d.call.outputOffset + line.1.text.length) ↔
      (bufferLength.toNat : Int) ≤ d.call.outputOffset + line.1.text.length)
  /-- A line for which it is false is copied into the buffer. -/
  inside : d.call.pc = .copy → ∀ line : Line,
    toSizeT (d.call.outputOffset + line.1.text.length) < bufferLength.toNat →
      (memcpy d.call.outputBuffer d.call.outputOffset line.1.text).isSome ∧
        d.call.outputOffset + line.1.text.length < d.call.outputBuffer.length
  noFault : d.call.pc ≠ .fault
  /-- The return value is one of the errors, or the number of bytes delivered. -/
  returned : d.call.pc = .done → ∃ r, d.call.reply = some r ∧
    (r.ret = EINVAL.ret ∨ r.ret = ENOMEM.ret ∨ r.ret = EFAULT.ret ∨
      0 ≤ r.ret ∧ r.ret = r.delivered.length)

section Bounds

variable {m : Machine} {bufferLength : UInt64} {next : Option (Line × Nat)} {s s' : State}

/-! ## What a step copies and returns -/

theorem copyLine_copied (bufferLength : UInt64) (line : Line) (s : State) :
    (copyLine bufferLength line s).copied = s.copied ∨
      (copyLine bufferLength line s).copied = s.copied ++ [line] := by
  unfold copyLine
  split
  · split
    · exact Or.inl rfl
    · split
      · exact Or.inl rfl
      · exact Or.inr rfl
  · exact Or.inl rfl

/-- Only the second pass copies, and only the line it has just been given. -/
theorem callWith_copied (hs : callWith m bufferLength next s = some s') :
    s'.copied = s.copied ∨
      ∃ line logIter, s.pc = .copy ∧ next = some (line, logIter) ∧
        s'.copied = s.copied ++ [line] := by
  unfold callWith at hs
  split at hs
  · split at hs <;> cases hs <;> exact Or.inl rfl
  · rename_i hpc
    split at hs
    · rename_i line logIter
      cases hs
      rcases copyLine_copied bufferLength line { s with logIter := logIter } with heq | heq
      · exact Or.inl heq
      · exact Or.inr ⟨line, logIter, hpc, rfl, heq⟩
    · cases hs
      exact Or.inl rfl
  · rename_i hcount hcopy
    refine Or.inl ?_
    obtain ⟨-, rfl | ⟨-, rfl⟩⟩ | ⟨-, rfl | ⟨-, rfl⟩⟩ | ⟨-, rfl | rfl⟩ | ⟨-, rfl⟩ :=
      callStep_cases hcount hcopy hs
    · rfl
    · rfl
    · rfl
    · rfl
    · rfl
    · rfl
    · unfold deliver
      dsimp only
      split <;> rfl

/-- What a call has returned. -/
def Returned (m : Machine) (s : State) : Prop :=
  ∃ r, s.reply = some r ∧
    (r.ret = EINVAL.ret ∨ r.ret = ENOMEM.ret ∨ r = answer m.accepts (text s.copied))

/-- The step that ends the call. -/
theorem callWith_returned (h : Inv m bufferLength s)
    (hs : callWith m bufferLength next s = some s') (hdone : s'.pc = .done) : Returned m s' := by
  unfold Inv at h
  unfold callWith at hs
  split at hs
  · -- count
    rename_i hpc
    split at hs
    · cases hs
      rw [show State.pc _ = s.pc from rfl, hpc] at hdone
      cases hdone
    · cases hs
      cases hdone
  · -- copy
    rename_i hpc
    rw [hpc] at h
    split at hs
    · rename_i line logIter
      cases hs
      have hbuf : Buffered bufferLength { s with logIter := logIter } :=
        Buffered.frame h rfl rfl rfl
      obtain ⟨-, ⟨-, heq⟩ | ⟨-, -, heq⟩ | ⟨-, -, _, _, heq⟩⟩ := copyLine_cases hbuf line
      · rw [heq, show State.pc _ = s.pc from rfl, hpc] at hdone
        cases hdone
      · rw [heq] at hdone
        cases hdone
      · rw [heq, show State.pc _ = s.pc from rfl, hpc] at hdone
        cases hdone
    · cases hs
      cases hdone
  · rename_i hcount hcopy
    obtain ⟨-, rfl | ⟨-, rfl⟩⟩ | ⟨-, rfl | ⟨-, rfl⟩⟩ | ⟨-, rfl | rfl⟩ | ⟨hpc, rfl⟩ :=
      callStep_cases hcount hcopy hs
    · exact ⟨_, rfl, Or.inl rfl⟩
    · cases hdone
    · exact ⟨_, rfl, Or.inr (Or.inl rfl)⟩
    · cases hdone
    · exact ⟨_, rfl, Or.inr (Or.inl rfl)⟩
    · cases hdone
    · rw [hpc] at h
      rw [deliver_eq h m]
      exact ⟨_, rfl, Or.inr (Or.inr rfl)⟩

/-! ## Every run -/

/-- What holds after every step, whatever the answers. -/
structure DumpInv (m : Machine) (bufferLength : UInt64) (d : Dump) : Prop where
  inv : Inv m bufferLength d.call
  whole : d.call.copied.Sublist d.delivered
  returned : d.call.pc = .done → Returned m d.call

theorem dumpStep_inv {d d' : Dump} (h : DumpInv m bufferLength d)
    (hs : dumpStep m bufferLength next d = some d') : DumpInv m bufferLength d' := by
  obtain ⟨s, hcall, rfl⟩ := Option.map_eq_some_iff.mp hs
  refine ⟨callWith_inv h.inv hcall, ?_, fun hdone => callWith_returned h.inv hcall hdone⟩
  rcases callWith_copied hcall with heq | ⟨line, logIter, hpc, rfl, heq⟩
  · rw [heq]
    dsimp only
    split
    · exact h.whole.trans (List.sublist_append_left _ _)
    · exact h.whole
  · rw [heq]
    dsimp only
    rw [hpc]
    exact h.whole.append (List.Sublist.refl [line])

theorem reach_dumpInv {log : RingBuffer Record} {d : Dump}
    (h : Reach (dumpStep m bufferLength) (.init log) d) : DumpInv m bufferLength d := by
  refine h.invariant ⟨⟨rfl, rfl, rfl, rfl⟩, List.Sublist.refl _, fun hdone => ?_⟩ ?_
  · cases hdone
  · intro next t t' ht hs
    exact dumpStep_inv ht hs

/-- The comparison, in a buffer that `kzalloc` serves. -/
theorem Buffered.toSizeT_sum_eq (h : Buffered bufferLength s) (line : Line) :
    (toSizeT (s.outputOffset + line.1.text.length) : Int) =
      s.outputOffset + line.1.text.length := by
  rw [h.toSizeT_sum line, text_append, text_singleton, List.length_append, h.offset,
    Int.natCast_add]

/-- **The bounds of the copying pass**, for any answers of `kmsg_dump_get_line`. -/
theorem reach_loopBounds {log : RingBuffer Record} {d : Dump}
    (h : Reach (dumpStep m bufferLength) (.init log) d) : LoopBounds bufferLength d := by
  obtain ⟨hinv, hwhole, hreturned⟩ := reach_dumpInv h
  have hbuffered : d.call.pc.InSecondLoop → Buffered bufferLength d.call := by
    unfold Inv at hinv
    rintro (hpc | hpc) <;> rw [hpc] at hinv <;> exact hinv
  refine ⟨?_, ?_, ?_, ?_, ?_, ?_⟩
  · intro hpc
    obtain ⟨-, -, hoffset, hlt, -⟩ := hbuffered hpc
    rw [hoffset]
    omega
  · intro hpc
    obtain ⟨-, -, hoffset, -, hstored⟩ := hbuffered hpc
    refine ⟨d.call.copied, hwhole, ?_⟩
    rw [hoffset, Int.toNat_natCast, hstored]
  · intro hpc line
    have hsum := (hbuffered (Or.inl hpc)).toSizeT_sum_eq line
    omega
  · intro hpc line hroom
    have hbuf := hbuffered (Or.inl hpc)
    have hsum := hbuf.toSizeT_sum_eq line
    have hoffset := hbuf.offset
    have hlength := hbuf.length
    have hinside : (text d.call.copied).length + line.1.text.length ≤
        d.call.outputBuffer.length := by omega
    refine ⟨?_, by omega⟩
    rw [hoffset, memcpy_eq hinside]
    rfl
  · intro hpc
    unfold Inv at hinv
    rw [hpc] at hinv
    exact hinv
  · intro hpc
    obtain ⟨r, hr, hret⟩ := hreturned hpc
    refine ⟨r, hr, ?_⟩
    rcases hret with hret | hret | rfl
    · exact Or.inl hret
    · exact Or.inr (Or.inl hret)
    · unfold answer
      split
      · exact Or.inr (Or.inr (Or.inl rfl))
      · exact Or.inr (Or.inr (Or.inr ⟨Int.natCast_nonneg _, rfl⟩))

/-! ## The log as the source of the answers -/

theorem copyLine_withLog (line : Line) (s : State) (log : RingBuffer Record) :
    copyLine bufferLength line { s with log := log } =
      { copyLine bufferLength line s with log := log } := by
  unfold copyLine State.Selects
  dsimp only
  split
  · split
    · rfl
    · split <;> rfl
  · rfl

/-- The call does not look at the log but for the answers. -/
theorem callWith_withLog (s : State) (log : RingBuffer Record) :
    callWith m bufferLength next { s with log := log } =
      (callWith m bufferLength next s).map fun s' => { s' with log := log } := by
  obtain ⟨pc, hpc⟩ : ∃ pc, s.pc = pc := ⟨_, rfl⟩
  unfold callWith callStep
  dsimp only
  rw [hpc]
  cases pc with
  | count => cases next <;> rfl
  | copy =>
    cases next with
    | none => rfl
    | some answer =>
      obtain ⟨line, logIter⟩ := answer
      exact congrArg some
        (copyLine_withLog line { s with pc := .copy, logIter := logIter } log)
  | checkLength => dsimp only; split <;> rfl
  | allocOutput => dsimp only; split <;> rfl
  | allocLine => dsimp only; split <;> rfl
  | deliver =>
    dsimp only
    unfold deliver
    dsimp only
    split <;> rfl
  | done => rfl
  | fault => rfl

/-- **Every run of the call among the writers of the log** is one of a call with some answers. -/
theorem reach_dump {log : RingBuffer Record} (h : Reach (step m bufferLength) (.init log) s) :
    ∃ d, Reach (dumpStep m bufferLength) (.init log) d ∧ s = { d.call with log := s.log } := by
  induction h with
  | refl => exact ⟨_, .refl, rfl⟩
  | tail _ hs ih =>
    obtain ⟨d, hd, heq⟩ := ih
    obtain ⟨a, ha⟩ := hs
    rename_i t t' _
    cases a with
    | call =>
      have hcall : callStep m bufferLength t = some t' := ha
      rw [callStep_eq, heq, callWith_withLog] at hcall
      obtain ⟨u, hu, rfl⟩ := Option.map_eq_some_iff.mp hcall
      exact ⟨_, hd.tail ⟨_, Option.map_eq_some_iff.mpr ⟨u, hu, rfl⟩⟩, rfl⟩
    | append r =>
      cases ha
      refine ⟨d, hd, ?_⟩
      rw [heq]
    | drop =>
      obtain ⟨log, -, rfl⟩ := Option.map_eq_some_iff.mp ha
      refine ⟨d, hd, ?_⟩
      rw [heq]

end Bounds

/-- A first pass that is given no line, and a second that is given six. -/
def unequalPasses : List (Option (Line × Nat)) :=
  [none, none, none, none] ++
    (List.range 6).map fun i => some ((repeated 200 i.toUInt8 (by decide), i), i + 1)

/-- With no line counted the test of the window is always true: five lines are copied, and the
    sixth does not fit. -/
theorem reach_loopBounds_unequal : ∃ d,
    exec (dumpStep .ideal 1024) unequalPasses (.init (uniformLog 0 0 (by decide))) = some d ∧
      d.delivered.length = 6 ∧ d.call.copied.length = 5 ∧ LoopBounds 1024 d := by
  have hrun : (exec (dumpStep .ideal 1024) unequalPasses
      (.init (uniformLog 0 0 (by decide)))).map
        (fun d => (d.delivered.length, d.call.copied.length)) = some (6, 5) := by decide +kernel
  obtain ⟨d, hd, heq⟩ := Option.map_eq_some_iff.mp hrun
  obtain ⟨hdelivered, hcopied⟩ := Prod.mk.inj heq
  exact ⟨d, hd, hdelivered, hcopied, reach_loopBounds (reach_of_exec _ hd)⟩

end UsacSyscalls.Log
