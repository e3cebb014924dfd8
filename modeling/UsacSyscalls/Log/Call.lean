import UsacSyscalls.Kernel
import UsacSyscalls.Lib.Run
import UsacSyscalls.Lib.RingBuffer

/-!
# The log system call as a step relation

Reference model of `retrieve_last_five_logs` of `kernel/sys.c`.  The call allocates two buffers,
counts the lines of the kernel log in one pass over it and copies the last ones in a second pass.
Each `kmsg_dump_get_line` is one step, together with the loop body behind it, which touches only
the call's own variables; between two steps other threads may append records to the log, and the
log may drop its oldest record.  Both buffers are freed on every path behind their allocation, so
`kfree` does not appear.

* `callStep_cases`, `copyLine_cases` — what a statement outside of the passes can do, and what the
  loop body of the copying pass can do with a line.
* `reach_inv` — the output buffer always holds the texts of the records copied so far, whatever
  happens to the log; nothing is written or read outside of it.
-/

set_option autoImplicit false

namespace UsacSyscalls.Log

open Lib Lib.Run

def MAX_LOG_ENTRIES : Nat := 5
def KERNEL_LOG_BUFFER_SIZE : Nat := 1024

/-- A record of the log, as `kmsg_dump_get_line` prints it into a buffer of
    `KERNEL_LOG_BUFFER_SIZE - 1` bytes. -/
structure Record where
  text : Bytes
  fits : text.length ≤ KERNEL_LOG_BUFFER_SIZE - 1
  deriving DecidableEq, Repr

/-- A record with its sequence number. -/
abbrev Line := Record × Nat

/-- What the rest of the kernel contributes to one call. -/
structure Machine where
  /-- Whether `kzalloc` and `kmalloc` serve a request of this size. -/
  kzalloc : Nat → Bool
  kmalloc : Nat → Bool
  /-- How many bytes the user buffer accepts. -/
  accepts : Nat
  kzalloc_max : ∀ n, KMALLOC_MAX_SIZE < n → kzalloc n = false

/-- The next statement of the call. -/
inductive Pc where
  | checkLength
  | allocOutput
  | allocLine
  | count
  | copy
  | deliver
  | done
  /-- A buffer has been left. -/
  | fault
  deriving DecidableEq, Repr

structure State where
  pc : Pc
  log : RingBuffer Record
  /-- The sequence number in `log_iter`. -/
  logIter : Nat
  outputBuffer : Bytes
  outputOffset : Int
  linesProcessed : Int
  totalLogLines : Int
  reply : Option Reply
  /-- The records that have been copied, in this order. -/
  copied : List Line

def State.init (log : RingBuffer Record) : State where
  pc := .checkLength
  log := log
  logIter := 0
  outputBuffer := []
  outputOffset := 0
  linesProcessed := 0
  totalLogLines := 0
  reply := none
  copied := []

/-! ## The call -/

/-- `kmsg_dump_rewind`: no record precedes the cursor. -/
def kmsgDumpRewind : Nat := 0

/-- `memcpy(buf + off, bs, ..)`; `none` when it leaves the buffer. -/
def memcpy (buf : Bytes) (off : Int) (bs : Bytes) : Option Bytes :=
  if 0 ≤ off ∧ off.toNat + bs.length ≤ buf.length then
    some (buf.take off.toNat ++ overwrite (buf.drop off.toNat) bs)
  else none

/-- `total_log_lines - lines_processed <= MAX_LOG_ENTRIES`. -/
abbrev State.Selects (s : State) : Prop :=
  toInt (s.totalLogLines - s.linesProcessed) ≤ MAX_LOG_ENTRIES

/-- The loop body of the copying pass, for the line just read. -/
def copyLine (bufferLength : UInt64) (line : Line) (s : State) : State :=
  if s.Selects then
    if bufferLength.toNat ≤ toSizeT (s.outputOffset + line.1.text.length) then
      { s with pc := .deliver }
    else
      match memcpy s.outputBuffer s.outputOffset line.1.text with
      | none => { s with pc := .fault }
      | some outputBuffer =>
        { s with
          outputBuffer := outputBuffer
          outputOffset := toInt (s.outputOffset + line.1.text.length)
          linesProcessed := toInt (s.linesProcessed + 1)
          copied := s.copied ++ [line] }
  else { s with linesProcessed := toInt (s.linesProcessed + 1) }

/-- An early `return -e`. -/
def State.fail (s : State) (e : Errno) : State := { s with pc := .done, reply := some ⟨e.ret, []⟩ }

/-- `copy_to_user` and the return value. -/
def deliver (m : Machine) (s : State) : State :=
  let n := toSizeT s.outputOffset
  if n ≤ s.outputBuffer.length then
    let r := copyToUser m.accepts (s.outputBuffer.take n)
    { s with
      pc := .done
      reply := some { r with ret := if r.ret = 0 then s.outputOffset else EFAULT.ret } }
  else { s with pc := .fault }

/-- One step of `retrieve_last_five_logs(user_log_buffer, buffer_length)`. -/
def callStep (m : Machine) (bufferLength : UInt64) (s : State) : Option State :=
  match s.pc with
  | .checkLength =>
    if bufferLength.toNat < KERNEL_LOG_BUFFER_SIZE then some (s.fail EINVAL)
    else some { s with pc := .allocOutput }
  | .allocOutput =>
    if m.kzalloc bufferLength.toNat then
      some { s with pc := .allocLine, outputBuffer := List.replicate bufferLength.toNat 0 }
    else some (s.fail ENOMEM)
  | .allocLine =>
    if m.kmalloc KERNEL_LOG_BUFFER_SIZE then
      some { s with pc := .count, logIter := kmsgDumpRewind }
    else some (s.fail ENOMEM)
  | .count =>
    match s.log.getLine s.logIter with
    | some (_, logIter) =>
      some { s with logIter := logIter, totalLogLines := toInt (s.totalLogLines + 1) }
    | none => some { s with pc := .copy, logIter := kmsgDumpRewind }
  | .copy =>
    match s.log.getLine s.logIter with
    | some (line, logIter) => some (copyLine bufferLength line { s with logIter := logIter })
    | none => some { s with pc := .deliver }
  | .deliver => some (deliver m s)
  | .done => none
  | .fault => none

/-- One step of the call when `kmsg_dump_get_line`, if the step calls it, answers `next`: a line and
    the cursor behind it, or the end of the log. -/
def callWith (m : Machine) (bufferLength : UInt64) (next : Option (Line × Nat)) (s : State) :
    Option State :=
  match s.pc with
  | .count =>
    match next with
    | some (_, logIter) =>
      some { s with logIter := logIter, totalLogLines := toInt (s.totalLogLines + 1) }
    | none => some { s with pc := .copy, logIter := kmsgDumpRewind }
  | .copy =>
    match next with
    | some (line, logIter) => some (copyLine bufferLength line { s with logIter := logIter })
    | none => some { s with pc := .deliver }
  | _ => callStep m bufferLength s

/-- The log decides nothing but what `kmsg_dump_get_line` answers. -/
theorem callStep_eq (m : Machine) (bufferLength : UInt64) (s : State) :
    callStep m bufferLength s = callWith m bufferLength (s.log.getLine s.logIter) s := by
  unfold callWith
  split
  · rename_i hpc
    unfold callStep
    rw [hpc]
    rfl
  · rename_i hpc
    unfold callStep
    rw [hpc]
    rfl
  · rfl

/-- **Outside of the two passes** a statement goes on to the next one, or returns an error, or
    delivers what has been copied. -/
theorem callStep_cases {m : Machine} {bufferLength : UInt64} {s s' : State}
    (hcount : s.pc ≠ .count) (hcopy : s.pc ≠ .copy) (hs : callStep m bufferLength s = some s') :
    (s.pc = .checkLength ∧ (s' = s.fail EINVAL ∨
      KERNEL_LOG_BUFFER_SIZE ≤ bufferLength.toNat ∧ s' = { s with pc := .allocOutput })) ∨
    (s.pc = .allocOutput ∧ (s' = s.fail ENOMEM ∨
      m.kzalloc bufferLength.toNat = true ∧ s' =
        { s with pc := .allocLine, outputBuffer := List.replicate bufferLength.toNat 0 })) ∨
    (s.pc = .allocLine ∧ (s' = s.fail ENOMEM ∨
      s' = { s with pc := .count, logIter := kmsgDumpRewind })) ∨
    (s.pc = .deliver ∧ s' = deliver m s) := by
  unfold callStep at hs
  split at hs <;> rename_i hpc
  · -- checkLength
    split at hs
    · cases hs
      exact .inl ⟨hpc, .inl rfl⟩
    · rename_i hmin
      cases hs
      exact .inl ⟨hpc, .inr ⟨Nat.not_lt.mp hmin, rfl⟩⟩
  · -- allocOutput
    split at hs
    · rename_i hk
      cases hs
      exact .inr (.inl ⟨hpc, .inr ⟨hk, rfl⟩⟩)
    · cases hs
      exact .inr (.inl ⟨hpc, .inl rfl⟩)
  · -- allocLine
    split at hs
    · cases hs
      exact .inr (.inr (.inl ⟨hpc, .inr rfl⟩))
    · cases hs
      exact .inr (.inr (.inl ⟨hpc, .inl rfl⟩))
  · exact absurd hpc hcount
  · exact absurd hpc hcopy
  · -- deliver
    cases hs
    exact .inr (.inr (.inr ⟨hpc, rfl⟩))
  · cases hs
  · cases hs

/-- Who can move: the call, a thread that logs a record, and the log when it needs room. -/
inductive Actor where
  | call
  | append (r : Record)
  | drop
  deriving DecidableEq, Repr

def step (m : Machine) (bufferLength : UInt64) : Actor → State → Option State
  | .call, s => callStep m bufferLength s
  | .append r, s => some { s with log := s.log.append r }
  | .drop, s => s.log.dropOldest.map fun log => { s with log := log }

/-! ## The texts -/

/-- The texts of some records, one after another. -/
def text (lines : List Line) : Bytes := lines.flatMap (·.1.text)

theorem text_append (xs ys : List Line) : text (xs ++ ys) = text xs ++ text ys := by
  simp [text]

@[simp] theorem text_singleton (line : Line) : text [line] = line.1.text := by
  simp [text]

theorem text_length_le (lines : List Line) : (text lines).length ≤ 1023 * lines.length := by
  induction lines with
  | nil => exact Nat.le_refl 0
  | cons line lines ih =>
    have hfits : line.1.text.length ≤ 1023 := line.1.fits
    simp only [text, List.flatMap_cons, List.length_append, List.length_cons] at ih ⊢
    omega

/-! ## The output buffer -/

/-- The output buffer holds the texts of the records that have been copied. -/
structure Buffered (bufferLength : UInt64) (s : State) : Prop where
  size : bufferLength.toNat ≤ KMALLOC_MAX_SIZE
  length : s.outputBuffer.length = bufferLength.toNat
  offset : s.outputOffset = (text s.copied).length
  lt : (text s.copied).length < bufferLength.toNat
  stored : s.outputBuffer.take (text s.copied).length = text s.copied

theorem memcpy_eq {buf bs : Bytes} {off : Nat} (h : off + bs.length ≤ buf.length) :
    memcpy buf off bs = some (buf.take off ++ overwrite (buf.drop off) bs) := by
  unfold memcpy
  exact if_pos ⟨Int.natCast_nonneg off, h⟩

section Buffer

variable {bufferLength : UInt64} {s : State}

/-- The other variables of the call do not matter. -/
theorem Buffered.frame {s' : State} (h : Buffered bufferLength s)
    (hbuffer : s'.outputBuffer = s.outputBuffer) (hoffset : s'.outputOffset = s.outputOffset)
    (hcopied : s'.copied = s.copied) : Buffered bufferLength s' := by
  refine ⟨h.size, ?_, ?_, ?_, ?_⟩
  · rw [hbuffer, h.length]
  · rw [hoffset, hcopied, h.offset]
  · rw [hcopied]
    exact h.lt
  · rw [hbuffer, hcopied, h.stored]

/-- The sum that the code compares with the length of the buffer. -/
theorem Buffered.toSizeT_sum (h : Buffered bufferLength s) (line : Line) :
    toSizeT (s.outputOffset + line.1.text.length) = (text (s.copied ++ [line])).length := by
  have hsize := h.size
  have hlt := h.lt
  have hfits : line.1.text.length ≤ 1023 := line.1.fits
  have hmax : KMALLOC_MAX_SIZE = 4194304 := rfl
  have hnat := toSizeT_of_bounds (x := s.outputOffset + line.1.text.length)
    (by rw [h.offset]; omega) (by rw [h.offset]; omega)
  rw [text_append, text_singleton, List.length_append]
  rw [h.offset] at hnat ⊢
  omega

/-- The new offset, which is far from the largest `int`. -/
theorem Buffered.toInt_sum (h : Buffered bufferLength s) {line : Line}
    (hroom : (text (s.copied ++ [line])).length < bufferLength.toNat) :
    toInt (s.outputOffset + line.1.text.length) = (text (s.copied ++ [line])).length := by
  have hsize := h.size
  have hmax : KMALLOC_MAX_SIZE = 4194304 := rfl
  rw [text_append, text_singleton, List.length_append] at hroom ⊢
  rw [h.offset, ← Int.natCast_add]
  exact toInt_natCast (by omega)

/-- A line that fits is appended to the texts in the buffer. -/
theorem Buffered.copied (h : Buffered bufferLength s) {line : Line}
    (hroom : (text (s.copied ++ [line])).length < bufferLength.toNat) (processed : Int) :
    Buffered bufferLength { s with
      outputBuffer := s.outputBuffer.take (text s.copied).length ++
        overwrite (s.outputBuffer.drop (text s.copied).length) line.1.text
      outputOffset := toInt (s.outputOffset + line.1.text.length)
      linesProcessed := processed
      copied := s.copied ++ [line] } := by
  have hlength := h.length
  have htext := hroom
  rw [text_append, text_singleton, List.length_append] at htext
  refine ⟨h.size, ?_, h.toInt_sum hroom, hroom, ?_⟩
  · show (_ ++ _ : Bytes).length = _
    rw [List.length_append, overwrite_length (by rw [List.length_drop]; omega),
      List.length_take, List.length_drop]
    omega
  · show (_ ++ _ : Bytes).take (text (s.copied ++ [line])).length = text (s.copied ++ [line])
    rw [h.stored, text_append, text_singleton, List.length_append, List.take_length_add_append,
      overwrite, List.take_left]

/-- **The loop body of the copying pass** keeps the buffer in order; it passes a line over, ends
    the pass because the line does not fit, or appends the line's text. -/
theorem copyLine_cases (h : Buffered bufferLength s) (line : Line) :
    Buffered bufferLength (copyLine bufferLength line s) ∧
    ((¬ s.Selects ∧ copyLine bufferLength line s =
        { s with linesProcessed := toInt (s.linesProcessed + 1) }) ∨
      (s.Selects ∧ bufferLength.toNat ≤ (text (s.copied ++ [line])).length ∧
        copyLine bufferLength line s = { s with pc := .deliver }) ∨
      (s.Selects ∧ (text (s.copied ++ [line])).length < bufferLength.toNat ∧ ∃ buf offset,
        copyLine bufferLength line s =
          { s with
            outputBuffer := buf
            outputOffset := offset
            linesProcessed := toInt (s.linesProcessed + 1)
            copied := s.copied ++ [line] })) := by
  have hsum := h.toSizeT_sum line
  by_cases hsel : s.Selects
  · by_cases hfull : bufferLength.toNat ≤ (text (s.copied ++ [line])).length
    · have heq : copyLine bufferLength line s = { s with pc := .deliver } := by
        unfold copyLine
        rw [if_pos hsel, hsum, if_pos hfull]
      rw [heq]
      exact ⟨h.frame rfl rfl rfl, .inr (.inl ⟨hsel, hfull, rfl⟩)⟩
    · have hroom := Nat.not_le.mp hfull
      have hinside : (text s.copied).length + line.1.text.length ≤ s.outputBuffer.length := by
        rw [text_append, text_singleton, List.length_append] at hroom
        rw [h.length]
        exact Nat.le_of_lt hroom
      have heq : copyLine bufferLength line s =
          { s with
            outputBuffer := s.outputBuffer.take (text s.copied).length ++
              overwrite (s.outputBuffer.drop (text s.copied).length) line.1.text
            outputOffset := toInt (s.outputOffset + line.1.text.length)
            linesProcessed := toInt (s.linesProcessed + 1)
            copied := s.copied ++ [line] } := by
        unfold copyLine
        rw [if_pos hsel, hsum, if_neg hfull, h.offset, memcpy_eq hinside]
      rw [heq]
      exact ⟨h.copied hroom _, .inr (.inr ⟨hsel, hroom, _, _, rfl⟩)⟩
  · have heq : copyLine bufferLength line s =
        { s with linesProcessed := toInt (s.linesProcessed + 1) } := by
      unfold copyLine
      rw [if_neg hsel]
    rw [heq]
    exact ⟨h.frame rfl rfl rfl, .inl ⟨hsel, rfl⟩⟩

/-- What a call answers that has copied a text. -/
def answer (accepts : Nat) (bs : Bytes) : Reply :=
  if accepts < bs.length then ⟨EFAULT.ret, bs.take accepts⟩ else ⟨bs.length, bs⟩

/-- **The answer** is the texts of the records that have been copied, and their length. -/
theorem deliver_eq (h : Buffered bufferLength s) (m : Machine) :
    deliver m s =
      { s with pc := .done, reply := some (answer m.accepts (text s.copied)) } := by
  have hlt := h.lt
  have hlength := h.length
  have hsize := h.size
  have hmax : KMALLOC_MAX_SIZE = 4194304 := rfl
  have hoffset : toSizeT s.outputOffset = (text s.copied).length := by
    have hnat := toSizeT_of_bounds (x := s.outputOffset) (by rw [h.offset]; omega)
      (by rw [h.offset]; omega)
    rw [h.offset] at hnat ⊢
    omega
  unfold deliver
  simp only [hoffset]
  rw [if_pos (by omega), h.stored, h.offset]
  unfold copyToUser answer
  split
  · rw [if_neg (Int.ne_of_lt EFAULT.ret_neg)]
  · rw [if_pos rfl]

end Buffer

/-! ## Every reachable state -/

/-- Nothing has been counted or copied yet. -/
structure Untouched (s : State) : Prop where
  offset : s.outputOffset = 0
  processed : s.linesProcessed = 0
  total : s.totalLogLines = 0
  copied : s.copied = []

/-- A call that does not return an error returns what it has copied. -/
def Answered (m : Machine) (bufferLength : UInt64) (s : State) : Prop :=
  ∃ r, s.reply = some r ∧
    (r.ret < 0 ∨ Buffered bufferLength s ∧ r = answer m.accepts (text s.copied))

/-- What is known before each statement. -/
def InvAt (m : Machine) (bufferLength : UInt64) (s : State) : Pc → Prop
  | .checkLength => Untouched s
  | .allocOutput => Untouched s ∧ KERNEL_LOG_BUFFER_SIZE ≤ bufferLength.toNat
  | .allocLine => Untouched s ∧ Buffered bufferLength s
  | .count => s.linesProcessed = 0 ∧ s.copied = [] ∧ Buffered bufferLength s
  | .copy => Buffered bufferLength s
  | .deliver => Buffered bufferLength s
  | .done => Answered m bufferLength s
  | .fault => False

def Inv (m : Machine) (bufferLength : UInt64) (s : State) : Prop := InvAt m bufferLength s s.pc

section Reachable

variable {m : Machine} {bufferLength : UInt64} {s s' : State}

theorem fail_inv (s : State) (e : Errno) : Inv m bufferLength (s.fail e) :=
  ⟨_, rfl, .inl e.ret_neg⟩

/-- The zeroed buffer, with nothing copied. -/
theorem Untouched.buffered (h : Untouched s) (hk : m.kzalloc bufferLength.toNat = true)
    (hmin : KERNEL_LOG_BUFFER_SIZE ≤ bufferLength.toNat) :
    Buffered bufferLength
      { s with pc := .allocLine, outputBuffer := List.replicate bufferLength.toNat 0 } := by
  have hpos : 0 < KERNEL_LOG_BUFFER_SIZE := by decide
  have hsize : bufferLength.toNat ≤ KMALLOC_MAX_SIZE := by
    by_contra hgt
    have hnone := m.kzalloc_max _ (Nat.not_le.mp hgt)
    rw [hk] at hnone
    cases hnone
  refine ⟨hsize, List.length_replicate, ?_, ?_, ?_⟩
  · show s.outputOffset = ((text s.copied).length : Int)
    rw [h.copied, h.offset]
    rfl
  · show (text s.copied).length < _
    rw [h.copied]
    exact Nat.lt_of_lt_of_le hpos hmin
  · show List.take (text s.copied).length _ = text s.copied
    rw [h.copied]
    rfl

/-- Each step of the call keeps the invariant, whatever `kmsg_dump_get_line` answers. -/
theorem callWith_inv {next : Option (Line × Nat)} (h : Inv m bufferLength s)
    (hs : callWith m bufferLength next s = some s') : Inv m bufferLength s' := by
  unfold Inv at h
  unfold callWith at hs
  split at hs
  · -- count
    rename_i hpc
    rw [hpc] at h
    obtain ⟨hprocessed, hcopied, hbuf⟩ := h
    split at hs
    · cases hs
      show Inv _ _ _
      unfold Inv
      rw [show State.pc _ = Pc.count from hpc]
      exact ⟨hprocessed, hcopied, hbuf.frame rfl rfl rfl⟩
    · cases hs
      exact hbuf.frame rfl rfl rfl
  · -- copy
    rename_i hpc
    rw [hpc] at h
    split at hs
    · rename_i line logIter
      cases hs
      have hbuf : Buffered bufferLength { s with logIter := logIter } :=
        Buffered.frame h rfl rfl rfl
      obtain ⟨hnew, ⟨-, heq⟩ | ⟨-, -, heq⟩ | ⟨-, -, _, _, heq⟩⟩ := copyLine_cases hbuf line
      · unfold Inv
        rw [show State.pc (copyLine _ _ _) = Pc.copy by rw [heq]; exact hpc]
        exact hnew
      · unfold Inv
        rw [show State.pc (copyLine _ _ _) = Pc.deliver by rw [heq]]
        exact hnew
      · unfold Inv
        rw [show State.pc (copyLine _ _ _) = Pc.copy by rw [heq]; exact hpc]
        exact hnew
    · cases hs
      exact Buffered.frame h rfl rfl rfl
  · -- the statements outside the two passes
    rename_i hcount hcopy
    obtain ⟨hpc, rfl | ⟨hmin, rfl⟩⟩ | ⟨hpc, rfl | ⟨hk, rfl⟩⟩ | ⟨hpc, rfl | rfl⟩ | ⟨hpc, rfl⟩ :=
      callStep_cases hcount hcopy hs <;> rw [hpc] at h
    · exact fail_inv s EINVAL
    · exact ⟨⟨h.offset, h.processed, h.total, h.copied⟩, hmin⟩
    · exact fail_inv s ENOMEM
    · obtain ⟨hun, hmin⟩ := h
      exact ⟨⟨hun.offset, hun.processed, hun.total, hun.copied⟩, hun.buffered hk hmin⟩
    · exact fail_inv s ENOMEM
    · obtain ⟨hun, hbuf⟩ := h
      exact ⟨hun.processed, hun.copied, hbuf.frame rfl rfl rfl⟩
    · rw [deliver_eq h m]
      exact ⟨_, rfl, .inr ⟨Buffered.frame h rfl rfl rfl, rfl⟩⟩

theorem callStep_inv (h : Inv m bufferLength s) (hs : callStep m bufferLength s = some s') :
    Inv m bufferLength s' := by
  rw [callStep_eq] at hs
  exact callWith_inv h hs

/-- The invariant does not mention the log. -/
theorem Inv.withLog (h : Inv m bufferLength s) (log : RingBuffer Record) :
    Inv m bufferLength { s with log := log } := by
  unfold Inv at h ⊢
  show InvAt m bufferLength { s with log := log } s.pc
  cases hpc : s.pc <;> rw [hpc] at h
  case checkLength => exact ⟨h.offset, h.processed, h.total, h.copied⟩
  case allocOutput => exact ⟨⟨h.1.offset, h.1.processed, h.1.total, h.1.copied⟩, h.2⟩
  case allocLine =>
    exact ⟨⟨h.1.offset, h.1.processed, h.1.total, h.1.copied⟩, h.2.frame rfl rfl rfl⟩
  case count => exact ⟨h.1, h.2.1, h.2.2.frame rfl rfl rfl⟩
  case copy => exact Buffered.frame h rfl rfl rfl
  case deliver => exact Buffered.frame h rfl rfl rfl
  case done =>
    obtain ⟨r, hr, hret | ⟨hbuf, heq⟩⟩ := h
    · exact ⟨r, hr, .inl hret⟩
    · exact ⟨r, hr, .inr ⟨hbuf.frame rfl rfl rfl, heq⟩⟩
  case fault => exact h

/-- **The buffer of the call** in every reachable state, whatever happens to the log. -/
theorem reach_inv {log : RingBuffer Record} (h : Reach (step m bufferLength) (.init log) s) :
    Inv m bufferLength s := by
  refine h.invariant ⟨rfl, rfl, rfl, rfl⟩ ?_
  intro a t t' ht hs
  cases a with
  | call => exact callStep_inv ht hs
  | append r =>
    cases hs
    exact ht.withLog _
  | drop =>
    obtain ⟨log, -, rfl⟩ := Option.map_eq_some_iff.mp hs
    exact ht.withLog log

end Reachable

end UsacSyscalls.Log
