import UsacSyscalls.Log.Quiet

/-!
# The last lines while the log is written

Between any two steps of the call records may be appended to the log and its oldest records may
be dropped.  The call selects by the number of lines it has counted, so its answer is the end of
the log only as long as the copying pass finds as many lines as the counting pass.

* `Harmless` — the moves after which both passes still agree.
* `Counting`, `Copying` — the invariants of the two passes; the second relates the call to the log
  at some earlier moment, of which it has copied the end as far as the cursor.
* `reach_lastFive` — along every run of harmless moves the call returns the last five records of
  the log as it stood at some moment of the call.
* `not_lastFive_appended` — one record that is appended between the passes, and six are returned.
-/

set_option autoImplicit false

namespace UsacSyscalls.Log

open Lib Lib.Run

/-! ## Stale counts -/

/-- The number of records in the log. -/
def State.present (s : State) : Nat := s.log.next - s.log.first

/-- The number of records the pass has still ahead of it. -/
def State.ahead (s : State) : Nat := s.log.next - s.log.position s.logIter

/-- The moves that do not make the count stale.

    The counter of the lines does not overflow.  While the lines are counted, a record that has
    been counted is not dropped; after such a drop nothing is appended; neither matters as long as
    at most five lines are counted in all.  While the lines are copied, only records that have
    been read again are dropped, and nothing is appended; but a log of which at most five lines
    were counted may still grow to five lines if none of those read has been dropped, and may
    lose records before the first is read. -/
def Harmless : Actor → State → Prop
  | .call, s => s.pc = .count → 0 < s.ahead → s.totalLogLines + 1 < 2 ^ 31
  | .append _, s =>
    (s.pc = .count →
      s.totalLogLines + s.ahead = s.present ∨ s.totalLogLines + s.ahead < MAX_LOG_ENTRIES) ∧
    (s.pc = .copy →
      s.totalLogLines ≤ MAX_LOG_ENTRIES ∧ s.linesProcessed + s.ahead < MAX_LOG_ENTRIES ∧
        s.linesProcessed + s.ahead = s.present)
  | .drop, s =>
    (s.pc = .count →
      s.logIter ≤ s.log.first ∨ s.totalLogLines + s.ahead ≤ MAX_LOG_ENTRIES) ∧
    (s.pc = .copy →
      s.log.first < s.logIter ∨ s.linesProcessed = 0 ∧ s.totalLogLines ≤ MAX_LOG_ENTRIES)

instance (a : Actor) (s : State) : Decidable (Harmless a s) := by
  cases a <;> unfold Harmless <;> infer_instance

/-- The call among writers that make only harmless moves. -/
def harmlessStep (m : Machine) (bufferLength : UInt64) : Actor → State → Option State :=
  restrict Harmless (step m bufferLength)

/-- A log as it stood in some state of the run, before the call had returned. -/
def AtSomeMoment (m : Machine) (bufferLength : UInt64) (log₀ : RingBuffer Record) (s : State)
    (g : RingBuffer Record) : Prop :=
  ∃ t, Reach (step m bufferLength) (.init log₀) t ∧ Reach (step m bufferLength) t s ∧
    t.pc ≠ .done ∧ t.log = g

/-- What the call has returned, unless it is an error, are the texts of the last five records of
    the log at some moment of the call. -/
def LastFive (m : Machine) (bufferLength : UInt64) (log₀ : RingBuffer Record) (s : State) : Prop :=
  ∀ r, s.pc = .done → s.reply = some r → 0 ≤ r.ret →
    ∃ g, AtSomeMoment m bufferLength log₀ s g ∧ s.copied = g.last MAX_LOG_ENTRIES ∧
      r = ⟨(text s.copied).length, text s.copied⟩

/-! ## What the moves do to the numbers -/

section Numbers

variable {s : State}

theorem ahead_rewind (s : State) (pc : Pc) :
    State.ahead { s with pc := pc, logIter := kmsgDumpRewind } = s.present := by
  unfold State.ahead State.present RingBuffer.position kmsgDumpRewind
  show s.log.next - max 0 s.log.first = _
  rw [Nat.zero_max]

theorem ahead_eq_zero (hget : s.log.getLine s.logIter = none) : s.ahead = 0 := by
  have hunread := congrArg List.length (RingBuffer.getLine_eq_none hget)
  rwa [s.log.unread_length, List.length_nil] at hunread

theorem ahead_append (h : s.logIter ≤ s.log.next) (r : Record) :
    State.ahead { s with log := s.log.append r } = s.ahead + 1 := by
  have hfirst := s.log.first_le_next
  unfold State.ahead RingBuffer.position
  show (s.log.append r).next - max s.logIter s.log.first = _
  rw [s.log.append_next]
  omega

theorem present_append (s : State) (r : Record) :
    State.present { s with log := s.log.append r } = s.present + 1 := by
  have hfirst := s.log.first_le_next
  unfold State.present
  show (s.log.append r).next - s.log.first = _
  rw [s.log.append_next]
  omega

theorem ahead_drop {log : RingBuffer Record} (hdrop : s.log.dropOldest = some log) :
    State.ahead { s with log := log } = s.log.next - max s.logIter (s.log.first + 1) := by
  obtain ⟨-, hfirst, hhistory⟩ := RingBuffer.dropOldest_eq_some hdrop
  unfold State.ahead RingBuffer.position RingBuffer.next
  rw [hfirst, hhistory]

theorem present_drop {log : RingBuffer Record} (hdrop : s.log.dropOldest = some log) :
    State.present { s with log := log } = s.log.next - (s.log.first + 1) := by
  obtain ⟨-, hfirst, hhistory⟩ := RingBuffer.dropOldest_eq_some hdrop
  unfold State.present RingBuffer.next
  rw [hfirst, hhistory]

end Numbers

/-! ## The counting pass -/

/-- The lines counted and those ahead are those in the log, unless there are at most five. -/
structure Counting (s : State) (t : Nat) : Prop where
  total : s.totalLogLines = t
  small : t < 2 ^ 31
  iter_le : s.logIter ≤ s.log.next
  covered : s.present ≤ t + s.ahead
  track : t + s.ahead = s.present ∨ t + s.ahead ≤ MAX_LOG_ENTRIES

section Counting

variable {m : Machine} {bufferLength : UInt64} {s : State} {t : Nat}

theorem Counting.readLine (h : Counting s t) {line : Line} {logIter : Nat}
    (hget : s.log.getLine s.logIter = some (line, logIter)) (hpc : s.pc = .count)
    (hok : Harmless .call s) :
    Counting { s with logIter := logIter, totalLogLines := toInt (s.totalLogLines + 1) }
      (t + 1) := by
  obtain ⟨-, hlt, hiter, -⟩ := RingBuffer.getLine_eq_some hget
  have htotal := h.total
  have hcovered := h.covered
  have htrack := h.track
  have hahead : s.ahead = s.log.next - s.log.position s.logIter := rfl
  have hsmall := hok hpc (by omega)
  have hahead' : State.ahead { s with
      logIter := logIter, totalLogLines := toInt (s.totalLogLines + 1) } + 1 = s.ahead := by
    unfold State.ahead RingBuffer.position at *
    show s.log.next - max logIter s.log.first + 1 = _
    omega
  refine ⟨?_, by omega, ?_, ?_, ?_⟩
  · show toInt (s.totalLogLines + 1) = _
    rw [htotal, ← Int.natCast_succ]
    exact toInt_natCast (by omega)
  · show logIter ≤ s.log.next
    omega
  · show s.present ≤ _
    omega
  · show _ = s.present ∨ _
    omega

theorem Counting.append (h : Counting s t) (r : Record) (hpc : s.pc = .count)
    (hok : Harmless (.append r) s) : Counting { s with log := s.log.append r } t := by
  have htotal := h.total
  have hiter := h.iter_le
  have hcovered := h.covered
  have htrack := h.track
  have hallowed := hok.1 hpc
  have hahead := ahead_append hiter r
  have hpresent := present_append s r
  refine ⟨htotal, h.small, ?_, ?_, ?_⟩
  · show s.logIter ≤ (s.log.append r).next
    rw [s.log.append_next]
    omega
  · omega
  · omega

theorem Counting.drop (h : Counting s t) {g : RingBuffer Record}
    (hdrop : s.log.dropOldest = some g) (hpc : s.pc = .count) (hok : Harmless .drop s) :
    Counting { s with log := g } t := by
  obtain ⟨hlt, hfirst, hhistory⟩ := RingBuffer.dropOldest_eq_some hdrop
  have hnext : g.next = s.log.next := congrArg List.length hhistory
  have htotal := h.total
  have hiter := h.iter_le
  have hcovered := h.covered
  have htrack := h.track
  have hallowed := hok.1 hpc
  have hahead := ahead_drop hdrop
  have hpresent := present_drop hdrop
  unfold State.ahead State.present RingBuffer.position at hcovered htrack
  unfold State.ahead RingBuffer.position at hallowed
  refine ⟨htotal, h.small, ?_, ?_, ?_⟩
  · show s.logIter ≤ g.next
    omega
  · omega
  · omega

end Counting

/-! ## The copying pass -/

/-- The records of `g` from the last five on and below the cursor have been copied, and exactly
    the others of the last five are ahead; `p` lines have been read again. -/
structure Copying (g : RingBuffer Record) (s : State) (t p : Nat) : Prop where
  total : s.totalLogLines = t
  small : t < 2 ^ 31
  processed : s.linesProcessed = p
  iter_le : s.logIter ≤ s.log.next
  history : g.history = s.log.history
  first : g.first ≤ s.log.first
  read : s.log.first ≤ s.logIter ∨ p = 0 ∧ g.first = s.log.first
  copied : s.copied = s.log.slice (g.lastFrom MAX_LOG_ENTRIES) s.logIter
  every : t ≤ MAX_LOG_ENTRIES → s.logIter - g.lastFrom MAX_LOG_ENTRIES = p
  track : t = p + s.ahead ∨ t ≤ MAX_LOG_ENTRIES ∧ p + s.ahead ≤ MAX_LOG_ENTRIES

section Copying

variable {m : Machine} {bufferLength : UInt64} {g : RingBuffer Record} {s : State} {t p : Nat}

theorem Copying.next_eq (h : Copying g s t p) : g.next = s.log.next := congrArg List.length h.history

/-- The copying pass starts with the log as it stands at the end of the counting pass. -/
theorem Counting.copying (h : Counting s t) (hget : s.log.getLine s.logIter = none)
    (hprocessed : s.linesProcessed = 0) (hcopied : s.copied = []) :
    Copying s.log { s with pc := .copy, logIter := kmsgDumpRewind } t 0 := by
  have hcovered := h.covered
  have htrack := h.track
  have hahead := ahead_eq_zero hget
  have hpresent := ahead_rewind s .copy
  refine ⟨h.total, h.small, hprocessed, Nat.zero_le _, rfl, Nat.le_refl _, .inr ⟨rfl, rfl⟩, ?_, ?_,
    ?_⟩
  · show s.copied = s.log.slice _ 0
    rw [hcopied, s.log.slice_of_le (Nat.zero_le _)]
  · intro _
    show 0 - _ = 0
    exact Nat.zero_sub _
  · omega

/-- The lines to be copied are the last five of `g`. -/
theorem Copying.selects_iff (h : Copying g s t p) (hahead : 0 < s.ahead) :
    s.Selects ↔ g.lastFrom MAX_LOG_ENTRIES ≤ s.log.position s.logIter := by
  have htrack := h.track
  have hsmall := h.small
  have hfirst := h.first
  have hfive : MAX_LOG_ENTRIES = 5 := rfl
  have hdifference : toInt (s.totalLogLines - s.linesProcessed) = (t : Int) - p := by
    rw [h.total, h.processed]
    exact toInt_of_bounds (by omega) (by omega)
  unfold State.Selects RingBuffer.lastFrom
  rw [hdifference, h.next_eq]
  unfold State.ahead RingBuffer.position at *
  omega

/-- What has been copied ends where the next line begins. -/
theorem Copying.copied_position (h : Copying g s t p) :
    s.copied = s.log.slice (g.lastFrom MAX_LOG_ENTRIES) (s.log.position s.logIter) := by
  rcases h.read with hread | ⟨-, hfirst⟩
  · rw [h.copied]
    unfold RingBuffer.position
    rw [Nat.max_eq_left hread]
  · by_cases hle : s.log.first ≤ s.logIter
    · rw [h.copied]
      unfold RingBuffer.position
      rw [Nat.max_eq_left hle]
    · have hfrom : s.log.first ≤ g.lastFrom MAX_LOG_ENTRIES := by
        unfold RingBuffer.lastFrom
        omega
      rw [h.copied, s.log.slice_of_le (by omega), s.log.slice_of_le]
      unfold RingBuffer.position
      omega

/-- At the end of the pass the last five records of `g` have been copied. -/
theorem Copying.last_eq (h : Copying g s t p) (hget : s.log.getLine s.logIter = none) :
    s.copied = g.last MAX_LOG_ENTRIES := by
  have hahead := ahead_eq_zero hget
  have hiter := h.iter_le
  have hfirst := s.log.first_le_next
  have hposition : s.log.position s.logIter = s.log.next := by
    unfold State.ahead RingBuffer.position at *
    omega
  rw [h.copied_position, hposition, RingBuffer.last_eq_slice, h.next_eq,
    RingBuffer.slice_congr h.history]

/-- One line further, with everything copied that was to be. -/
theorem Copying.advance (h : Copying g s t p) {s' : State} (hahead : 0 < s.ahead)
    (hlog : s'.log = s.log) (htotal : s'.totalLogLines = s.totalLogLines)
    (hprocessed : s'.linesProcessed = toInt (s.linesProcessed + 1))
    (hiter : s'.logIter = s.log.position s.logIter + 1)
    (hcopied : s'.copied = s.log.slice (g.lastFrom MAX_LOG_ENTRIES) s'.logIter)
    (hevery : t ≤ MAX_LOG_ENTRIES →
      g.lastFrom MAX_LOG_ENTRIES ≤ s.log.position s.logIter) :
    Copying g s' t (p + 1) := by
  have hsmall := h.small
  have htrack := h.track
  have hread := h.read
  have hfive : MAX_LOG_ENTRIES = 5 := rfl
  have hahead' : s'.ahead + 1 = s.ahead := by
    unfold State.ahead RingBuffer.position at *
    rw [hlog, hiter]
    omega
  refine ⟨by rw [htotal, h.total], hsmall, ?_, ?_, by rw [hlog, h.history], by rw [hlog]; exact h.first,
    .inl ?_, by rw [hlog]; exact hcopied, ?_, by omega⟩
  · rw [hprocessed, h.processed, ← Int.natCast_succ]
    exact toInt_natCast (by omega)
  · unfold State.ahead at hahead
    rw [hlog, hiter]
    omega
  · unfold RingBuffer.position at hiter
    rw [hlog]
    omega
  · intro ht
    have hbefore := h.every ht
    have hfrom := hevery ht
    have hlow : g.first ≤ g.lastFrom MAX_LOG_ENTRIES := Nat.le_max_left _ _
    unfold RingBuffer.position at hiter hfrom
    omega

/-- **A line is read**: it is copied iff it is one of the last five, and there is room for it. -/
theorem Copying.readLine (h : Copying g s t p) (hbuf : Buffered bufferLength s)
    (hlarge : 1023 * MAX_LOG_ENTRIES < bufferLength.toNat) {line : Line} {logIter : Nat}
    (hget : s.log.getLine s.logIter = some (line, logIter)) (hpc : s.pc = .copy) :
    (copyLine bufferLength line { s with logIter := logIter }).pc = .copy ∧
      Copying g (copyLine bufferLength line { s with logIter := logIter }) t (p + 1) := by
  obtain ⟨hline, hlt, hiter, -⟩ := RingBuffer.getLine_eq_some hget
  have hahead : 0 < s.ahead := by
    unfold State.ahead
    omega
  have hiff := h.selects_iff hahead
  have hposition := h.copied_position
  have hlast : g.next - MAX_LOG_ENTRIES ≤ g.lastFrom MAX_LOG_ENTRIES := Nat.le_max_right _ _
  rw [h.next_eq] at hlast
  have hbuf' : Buffered bufferLength { s with logIter := logIter } := hbuf.frame rfl rfl rfl
  obtain ⟨-, ⟨hsel, heq⟩ | ⟨hsel, hfull, -⟩ | ⟨hsel, -, _, _, heq⟩⟩ := copyLine_cases hbuf' line
  · -- passed over: the line precedes the last five
    have hbelow : ¬ g.lastFrom MAX_LOG_ENTRIES ≤ s.log.position s.logIter :=
      fun hle => hsel (hiff.mpr hle)
    rw [heq]
    refine ⟨hpc, h.advance hahead rfl rfl rfl hiter ?_ ?_⟩
    · show s.copied = s.log.slice _ logIter
      rw [hposition, s.log.slice_of_le (by omega), s.log.slice_of_le (by omega)]
    · intro ht
      refine absurd (hiff.mp ?_) hbelow
      have htrack := h.track
      show toInt (s.totalLogLines - s.linesProcessed) ≤ _
      have hfive : MAX_LOG_ENTRIES = 5 := rfl
      rw [h.total, h.processed, toInt_of_bounds (by omega) (by omega)]
      omega
  · -- the last five always fit
    have hfits := text_length_le (s.copied ++ [line])
    rw [List.length_append, List.length_singleton, hposition, s.log.slice_length] at hfits
    have hfive : MAX_LOG_ENTRIES = 5 := rfl
    have hfull' : bufferLength.toNat ≤ (text (s.copied ++ [line])).length := hfull
    rw [hposition] at hfull'
    omega
  · have hfrom : g.lastFrom MAX_LOG_ENTRIES ≤ s.log.position s.logIter := hiff.mp hsel
    rw [heq]
    refine ⟨hpc, h.advance hahead rfl rfl rfl hiter ?_ fun _ => hfrom⟩
    show s.copied ++ [line] = s.log.slice _ logIter
    rw [hposition, hiter, RingBuffer.slice_succ hfrom hline]

/-- A record is appended, and all lines belong to the last five of the log as it is then. -/
theorem Copying.append (h : Copying g s t p) (r : Record) (hpc : s.pc = .copy)
    (hok : Harmless (.append r) s) :
    Copying (s.log.append r) { s with log := s.log.append r } t p := by
  obtain ⟨hfew, hroom, hkept⟩ := hok.2 hpc
  rw [h.total] at hfew
  rw [h.processed] at hroom hkept
  have hiter := h.iter_le
  have hlogfirst := s.log.first_le_next
  have hread := h.read
  have hevery := h.every (by omega)
  have hlow : g.first ≤ g.lastFrom MAX_LOG_ENTRIES := Nat.le_max_left _ _
  have hpresent : s.present = s.log.next - s.log.first := rfl
  have hfive : MAX_LOG_ENTRIES = 5 := rfl
  have hahead := ahead_append hiter r
  have hfrom : (s.log.append r).lastFrom MAX_LOG_ENTRIES = s.log.first := by
    unfold RingBuffer.lastFrom
    rw [s.log.append_next, s.log.append_first]
    omega
  refine ⟨h.total, h.small, h.processed, ?_, rfl, Nat.le_refl _, ?_, ?_, ?_, ?_⟩
  · show s.logIter ≤ (s.log.append r).next
    rw [s.log.append_next]
    omega
  · exact hread.imp id fun ⟨hp, _⟩ => ⟨hp, rfl⟩
  · show s.copied = (s.log.append r).slice _ s.logIter
    have hstart : g.lastFrom MAX_LOG_ENTRIES = s.log.first ∨
        s.logIter ≤ g.lastFrom MAX_LOG_ENTRIES ∧ s.logIter ≤ s.log.first := by
      unfold State.ahead RingBuffer.position at hkept
      omega
    rw [hfrom, RingBuffer.slice_append _ _ hiter, h.copied]
    rcases hstart with hsame | ⟨hle, hle'⟩
    · rw [hsame]
    · rw [s.log.slice_of_le hle, s.log.slice_of_le hle']
  · intro _
    rw [hfrom]
    show s.logIter - s.log.first = p
    unfold State.ahead RingBuffer.position at hkept
    omega
  · rw [hahead]
    omega

/-- A record is dropped that has been read again, or before the first is read; then the records
    to be copied are those of the log as it is then. -/
theorem Copying.drop (h : Copying g s t p) {log : RingBuffer Record}
    (hdrop : s.log.dropOldest = some log) (hpc : s.pc = .copy) (hok : Harmless .drop s) :
    Copying g { s with log := log } t p ∨ Copying log { s with log := log } t p := by
  obtain ⟨hlt, hfirst, hhistory⟩ := RingBuffer.dropOldest_eq_some hdrop
  have hnext : log.next = s.log.next := congrArg List.length hhistory
  have hiter := h.iter_le
  have hgfirst := h.first
  have hread := h.read
  have htrack := h.track
  have hahead := ahead_drop hdrop
  unfold State.ahead RingBuffer.position at htrack
  by_cases hreread : s.log.first < s.logIter
  · left
    refine ⟨h.total, h.small, h.processed, ?_, ?_, ?_, .inl ?_, ?_, h.every, ?_⟩
    · show s.logIter ≤ log.next
      omega
    · show g.history = log.history
      rw [hhistory, h.history]
    · show g.first ≤ log.first
      omega
    · show log.first ≤ s.logIter
      omega
    · show s.copied = log.slice _ _
      rw [RingBuffer.slice_congr hhistory, h.copied]
    · rw [hahead]
      omega
  · right
    obtain ⟨hnone, hfew⟩ := (hok.2 hpc).resolve_left hreread
    rw [h.processed] at hnone
    rw [h.total] at hfew
    have hp : p = 0 := by omega
    have hlow : log.first ≤ log.lastFrom MAX_LOG_ENTRIES := Nat.le_max_left _ _
    have hglow : g.first ≤ g.lastFrom MAX_LOG_ENTRIES := Nat.le_max_left _ _
    refine ⟨h.total, h.small, h.processed, ?_, rfl, Nat.le_refl _, .inr ⟨hp, rfl⟩, ?_, ?_, ?_⟩
    · show s.logIter ≤ log.next
      omega
    · show s.copied = log.slice _ s.logIter
      have hbefore : s.logIter ≤ g.lastFrom MAX_LOG_ENTRIES := by
        have hevery := h.every (by omega)
        omega
      rw [h.copied, s.log.slice_of_le hbefore, log.slice_of_le (by omega)]
    · intro _
      show s.logIter - _ = p
      omega
    · rw [hahead]
      omega

end Copying

/-! ## Every run -/

section Runs

variable {m : Machine} {bufferLength : UInt64} {log₀ g : RingBuffer Record} {s s' : State}

theorem AtSomeMoment.now (h : Reach (step m bufferLength) (.init log₀) s) (hpc : s.pc ≠ .done) :
    AtSomeMoment m bufferLength log₀ s s.log := ⟨s, h, .refl, hpc, rfl⟩

/-- What was a moment of the run stays one. -/
theorem AtSomeMoment.later (h : AtSomeMoment m bufferLength log₀ s g) {a : Actor}
    (hs : step m bufferLength a s = some s') : AtSomeMoment m bufferLength log₀ s' g := by
  obtain ⟨t, hreach, hlater, hpc, hlog⟩ := h
  exact ⟨t, hreach, hlater.tail ⟨a, hs⟩, hpc, hlog⟩

/-- The call has copied the last five records of the log at some moment. -/
def Copied (m : Machine) (bufferLength : UInt64) (log₀ : RingBuffer Record) (s : State) : Prop :=
  ∃ g, AtSomeMoment m bufferLength log₀ s g ∧ s.copied = g.last MAX_LOG_ENTRIES

/-- Neither what has been copied nor its moment is affected by a write. -/
theorem Copied.write (h : Copied m bufferLength log₀ s) {a : Actor} {log : RingBuffer Record}
    (hs : step m bufferLength a s = some { s with log := log }) :
    Copied m bufferLength log₀ { s with log := log } := by
  obtain ⟨g, hmoment, hcopied⟩ := h
  exact ⟨g, hmoment.later hs, hcopied⟩

/-- What harmless moves maintain, by the next statement of the call. -/
def TrackedAt (m : Machine) (bufferLength : UInt64) (log₀ : RingBuffer Record) (s : State) :
    Pc → Prop
  | .count => ∃ t, Counting s t
  | .copy => ∃ g t p, AtSomeMoment m bufferLength log₀ s g ∧ Copying g s t p
  | .deliver => Copied m bufferLength log₀ s
  | .done => (∃ r, s.reply = some r ∧ r.ret < 0) ∨ Copied m bufferLength log₀ s
  | .checkLength => True
  | .allocOutput => True
  | .allocLine => True
  | .fault => True

def Tracked (m : Machine) (bufferLength : UInt64) (log₀ : RingBuffer Record) (s : State) : Prop :=
  TrackedAt m bufferLength log₀ s s.pc

theorem Tracked.of_at {pc : Pc} (hpc : s.pc = pc) (h : TrackedAt m bufferLength log₀ s pc) :
    Tracked m bufferLength log₀ s := by
  unfold Tracked
  rwa [hpc]

theorem fail_tracked (s : State) (e : Errno) : Tracked m bufferLength log₀ (s.fail e) :=
  .inl ⟨_, rfl, e.ret_neg⟩

/-- The counting pass starts with nothing counted. -/
theorem Untouched.counting (h : Untouched s) :
    Counting { s with pc := .count, logIter := kmsgDumpRewind } 0 := by
  have hahead := ahead_rewind s .count
  refine ⟨h.total, by decide, Nat.zero_le _, ?_, .inl ?_⟩
  · rw [hahead, Nat.zero_add]
    exact Nat.le_refl s.present
  · rw [hahead, Nat.zero_add]
    rfl

/-- Each step of the call. -/
theorem callStep_tracked (hlarge : 1023 * MAX_LOG_ENTRIES < bufferLength.toNat)
    (hreach : Reach (step m bufferLength) (.init log₀) s) (h : Tracked m bufferLength log₀ s)
    (hok : Harmless .call s) (hs : step m bufferLength .call s = some s') :
    Tracked m bufferLength log₀ s' := by
  have hinv := reach_inv hreach
  have hcall : callStep m bufferLength s = some s' := hs
  unfold Tracked at h
  unfold Inv at hinv
  rw [callStep_eq] at hcall
  unfold callWith at hcall
  split at hcall
  · -- count
    rename_i hpc
    rw [hpc] at h hinv
    obtain ⟨t, hcounting⟩ := h
    split at hcall
    · rename_i line logIter hget
      cases hcall
      have hnext := hcounting.readLine hget hpc hok
      exact .of_at hpc ⟨t + 1, hnext⟩
    · rename_i hget
      cases hcall
      have hmoment := AtSomeMoment.now hreach (by rw [hpc]; decide)
      exact ⟨s.log, t, 0, hmoment.later hs, hcounting.copying hget hinv.1 hinv.2.1⟩
  · -- copy
    rename_i hpc
    rw [hpc] at h hinv
    obtain ⟨g, t, p, hmoment, hcopying⟩ := h
    split at hcall
    · rename_i line logIter hget
      cases hcall
      obtain ⟨hpc', hnext⟩ := hcopying.readLine hinv hlarge hget hpc
      exact .of_at hpc' ⟨g, t, p + 1, hmoment.later hs, hnext⟩
    · rename_i hget
      cases hcall
      exact ⟨g, hmoment.later hs, hcopying.last_eq hget⟩
  · -- the statements outside the two passes
    rename_i hcount hcopy
    obtain ⟨-, rfl | ⟨-, rfl⟩⟩ | ⟨-, rfl | ⟨-, rfl⟩⟩ | ⟨hpc, rfl | rfl⟩ | ⟨hpc, rfl⟩ :=
      callStep_cases hcount hcopy hcall
    · exact fail_tracked s EINVAL
    · exact trivial
    · exact fail_tracked s ENOMEM
    · exact trivial
    · exact fail_tracked s ENOMEM
    · rw [hpc] at hinv
      exact ⟨0, hinv.1.counting⟩
    · rw [hpc] at h hinv
      obtain ⟨g, hmoment, hcopied⟩ := h
      have hlater := hmoment.later hs
      rw [deliver_eq hinv m] at hlater ⊢
      exact .inr ⟨g, hlater, hcopied⟩

/-- A record that is appended. -/
theorem append_tracked (hreach : Reach (step m bufferLength) (.init log₀) s)
    (h : Tracked m bufferLength log₀ s) {r : Record} (hok : Harmless (.append r) s) :
    Tracked m bufferLength log₀ { s with log := s.log.append r } := by
  have hs : step m bufferLength (.append r) s = some { s with log := s.log.append r } := rfl
  unfold Tracked at h
  obtain ⟨pc, hpc⟩ : ∃ pc, s.pc = pc := ⟨_, rfl⟩
  rw [hpc] at h
  refine .of_at hpc ?_
  cases pc with
  | count =>
    obtain ⟨t, hcounting⟩ := h
    exact ⟨t, hcounting.append r hpc hok⟩
  | copy =>
    obtain ⟨g, t, p, -, hcopying⟩ := h
    have hrunning : s.pc ≠ .done := by
      rw [hpc]
      decide
    have hmoment := AtSomeMoment.now (hreach.tail ⟨_, hs⟩) hrunning
    exact ⟨s.log.append r, t, p, hmoment, hcopying.append r hpc hok⟩
  | deliver => exact Copied.write h hs
  | done => exact h.imp id fun hcopied => hcopied.write hs
  | checkLength | allocOutput | allocLine | fault => exact trivial

/-- A record that is dropped. -/
theorem drop_tracked (hreach : Reach (step m bufferLength) (.init log₀) s)
    (h : Tracked m bufferLength log₀ s) (hok : Harmless .drop s) {log : RingBuffer Record}
    (hdrop : s.log.dropOldest = some log) :
    Tracked m bufferLength log₀ { s with log := log } := by
  have hs : step m bufferLength .drop s = some { s with log := log } :=
    Option.map_eq_some_iff.mpr ⟨log, hdrop, rfl⟩
  unfold Tracked at h
  obtain ⟨pc, hpc⟩ : ∃ pc, s.pc = pc := ⟨_, rfl⟩
  rw [hpc] at h
  refine .of_at hpc ?_
  cases pc with
  | count =>
    obtain ⟨t, hcounting⟩ := h
    exact ⟨t, hcounting.drop hdrop hpc hok⟩
  | copy =>
    obtain ⟨g, t, p, hmoment, hcopying⟩ := h
    rcases hcopying.drop hdrop hpc hok with hsame | hnew
    · exact ⟨g, t, p, hmoment.later hs, hsame⟩
    · have hrunning : s.pc ≠ .done := by
        rw [hpc]
        decide
      have hnow := AtSomeMoment.now (hreach.tail ⟨_, hs⟩) hrunning
      exact ⟨log, t, p, hnow, hnew⟩
  | deliver => exact Copied.write h hs
  | done => exact h.imp id fun hcopied => hcopied.write hs
  | checkLength | allocOutput | allocLine | fault => exact trivial

theorem reach_tracked (hlarge : 1023 * MAX_LOG_ENTRIES < bufferLength.toNat)
    (h : Reach (harmlessStep m bufferLength) (.init log₀) s) : Tracked m bufferLength log₀ s := by
  induction h with
  | refl => exact trivial
  | tail hrun hstep ih =>
    obtain ⟨a, ha⟩ := hstep
    obtain ⟨hok, hs⟩ := restrict_eq_some ha
    have hreach := Reach.of_restrict hrun
    cases a with
    | call => exact callStep_tracked hlarge hreach ih hok hs
    | append r =>
      cases hs
      exact append_tracked hreach ih hok
    | drop =>
      obtain ⟨log, hdrop, rfl⟩ := Option.map_eq_some_iff.mp hs
      exact drop_tracked hreach ih hok hdrop

end Runs

/-- **The last five records of some moment**: along every run whose moves are all harmless, with a
    buffer that holds five of the longest lines. -/
theorem reach_lastFive (m : Machine) (bufferLength : UInt64) (log₀ : RingBuffer Record)
    (hlarge : 1023 * MAX_LOG_ENTRIES < bufferLength.toNat) {s : State}
    (h : Reach (harmlessStep m bufferLength) (.init log₀) s) :
    LastFive m bufferLength log₀ s := by
  intro r hdone hreply hret
  have htracked := reach_tracked hlarge h
  have hinv := reach_inv (Reach.of_restrict h)
  unfold Tracked at htracked
  unfold Inv at hinv
  rw [hdone] at htracked hinv
  rcases htracked with ⟨r', hr', hneg⟩ | ⟨g, hmoment, hcopied⟩
  · rw [hreply] at hr'
    cases hr'
    omega
  · refine ⟨g, hmoment, hcopied, ?_⟩
    obtain ⟨r', hr', hneg | ⟨-, hanswer⟩⟩ := hinv
    · rw [hreply] at hr'
      cases hr'
      omega
    · rw [hreply] at hr'
      cases hr'
      rw [hanswer] at hret ⊢
      unfold answer at hret ⊢
      split
      · rename_i hfault
        rw [if_pos hfault] at hret
        exact absurd hret (Int.not_le.mpr EFAULT.ret_neg)
      · rfl

/-- An empty log. -/
def emptyLog : RingBuffer Record := ⟨[], 0, Nat.le_refl 0⟩

/-- Records are logged before the call and while it counts, and one is dropped while it copies. -/
def busySchedule : List Actor :=
  [.append (repeated 3 0 (by decide)), .call, .call, .call, .call,
    .append (repeated 3 1 (by decide)), .call, .call, .call, .drop, .call, .call, .call]

theorem reach_lastFive_busy : ∃ s, exec (harmlessStep .ideal 5116) busySchedule (.init emptyLog) =
    some s ∧ s.pc = .done ∧ LastFive .ideal 5116 emptyLog s := by
  have hdone : (exec (harmlessStep .ideal 5116) busySchedule (.init emptyLog)).map State.pc =
      some .done := by decide +kernel
  obtain ⟨s, hs, hpc⟩ := Option.map_eq_some_iff.mp hdone
  exact ⟨s, hs, hpc, reach_lastFive .ideal 5116 emptyLog (by decide) (reach_of_exec _ hs)⟩

def fiveLog : RingBuffer Record := uniformLog 5 1 (by decide)

def sixth : Record := repeated 1 5 (by decide)

/-- Five records are counted, a sixth is appended between the passes, and all six are returned,
    with the largest buffer that `kzalloc` serves. -/
theorem exists_six_returned : ∃ s lines, Reach (step .ideal 4194304) (.init fiveLog) s ∧
    Ended .ideal lines s ∧ lines.length = 6 ∧ (text lines).length = 6 := by
  have hquiet : ∀ {t t'}, Reach (quietStep .ideal 4194304) t t' → Reach (step .ideal 4194304) t t' :=
    fun h => h.of_subsystem fun _ _ _ hs => ⟨.call, hs⟩
  obtain ⟨hcount, hbuf⟩ := @reach_copyStart .ideal 4194304 (by decide) (by decide) (by decide) fiveLog
  generalize htotal : toInt fiveLog.records.length = total at hcount hbuf
  have happend : Reach (step .ideal 4194304) (copyStart 4194304 fiveLog total)
      { copyStart 4194304 fiveLog total with log := fiveLog.append sixth } :=
    .single ⟨.append sixth, rfl⟩
  obtain ⟨s, hcopy, -, hended⟩ :=
    (@copyPass .ideal 4194304 (fiveLog.append sixth).records
      { copyStart 4194304 fiveLog total with log := fiveLog.append sixth } rfl
      (hbuf.frame rfl rfl rfl) (unread_rewind _)).exists_final
  refine ⟨s, _, ((hquiet hcount).trans happend).trans (hquiet hcopy), hended, ?_⟩
  show (pick _ total 0 [] _).length = 6 ∧ (text (pick _ total 0 [] _)).length = 6
  rw [← htotal]
  decide +kernel

/-- Whatever bound is put on the length of the buffer, more than five records may be returned. -/
theorem not_lastFive_appended :
    ¬ ∃ bound, bound ≤ KMALLOC_MAX_SIZE ∧ ∀ bufferLength : UInt64, bound ≤ bufferLength.toNat →
      ∀ m log₀ s, Reach (step m bufferLength) (.init log₀) s → LastFive m bufferLength log₀ s := by
  rintro ⟨bound, hbound, hall⟩
  obtain ⟨s, lines, hreach, hended, hlines, htext⟩ := exists_six_returned
  have haccepted : (text lines).length ≤ Machine.ideal.accepts := by
    rw [htext]
    decide
  obtain ⟨g, -, hcopied, -⟩ := hall 4194304 hbound .ideal fiveLog s hreach _ hended.pc
    (hended.returns.reply haccepted) (Int.natCast_nonneg _)
  have hlast := g.last_length MAX_LOG_ENTRIES
  have hfive : MAX_LOG_ENTRIES = 5 := rfl
  rw [← hcopied, hended.copied, hlines] at hlast
  omega

end UsacSyscalls.Log
