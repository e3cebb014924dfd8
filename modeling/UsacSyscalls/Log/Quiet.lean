import UsacSyscalls.Log.Call

/-!
# The last lines of a quiet log

A log that does not change while the call runs.  The two passes then see the same lines, and the
call is a function of the log: `pick` is the copying pass over a list of lines.

* `call_quiet` — the call ends with the records that `pick` selects.
* `pick_eq_fill` — below `2 ^ 31` lines these are the last five, in order, up to the first that
  does not fit.
* `lastLines_iff` — the newest records are returned exactly when all of the last five fit.
-/

set_option autoImplicit false

namespace UsacSyscalls.Log

open Lib Lib.Run

/-- The call alone. -/
def quietStep (m : Machine) (bufferLength : UInt64) : Unit → State → Option State :=
  fun _ s => callStep m bufferLength s

/-! ## The passes over a list -/

/-- The records the copying pass ends up with, from those copied so far and the lines ahead. -/
def pick (limit : Nat) (total : Int) : Int → List Line → List Line → List Line
  | _, copied, [] => copied
  | processed, copied, line :: lines =>
    if toInt (total - processed) ≤ MAX_LOG_ENTRIES then
      if limit ≤ (text (copied ++ [line])).length then copied
      else pick limit total (toInt (processed + 1)) (copied ++ [line]) lines
    else pick limit total (toInt (processed + 1)) copied lines

theorem toInt_toInt_add (x y : Int) : toInt (toInt x + y) = toInt (x + y) :=
  Int.bmod_add_bmod

theorem toInt_sub_toInt (x y : Int) : toInt (toInt x - toInt y) = toInt (x - y) := by
  unfold toInt
  rw [Int.sub_bmod_bmod, Int.bmod_sub_bmod]

variable {m : Machine} {bufferLength : UInt64}

/-- **The counting pass** counts the lines ahead, modulo `2 ^ 32`. -/
theorem countPass : ∀ (lines : List Line) (s : State) (total : Int), s.pc = .count →
    s.log.unread s.logIter = lines → s.totalLogLines = toInt total →
    Reach (quietStep m bufferLength) s
      { s with
        pc := .copy
        logIter := kmsgDumpRewind
        totalLogLines := toInt (total + lines.length) } := by
  intro lines
  induction lines with
  | nil =>
    intro s total hpc hunread htotal
    have hget := RingBuffer.getLine_of_nil hunread
    have hstep : quietStep m bufferLength () s =
        some { s with pc := .copy, logIter := kmsgDumpRewind } := by
      show callStep m bufferLength s = _
      unfold callStep
      rw [hpc]
      simp only [hget]
    rw [List.length_nil, Int.natCast_zero, Int.add_zero, ← htotal]
    exact .single ⟨(), hstep⟩
  | cons line lines ih =>
    intro s total hpc hunread htotal
    obtain ⟨logIter, hget, hrest⟩ := RingBuffer.getLine_of_cons hunread
    have hstep : quietStep m bufferLength () s =
        some { s with logIter := logIter, totalLogLines := toInt (total + 1) } := by
      show callStep m bufferLength s = _
      unfold callStep
      rw [hpc]
      simp only [hget]
      rw [htotal, toInt_toInt_add]
    have hpass := ih { s with logIter := logIter, totalLogLines := toInt (total + 1) }
      (total + 1) hpc hrest rfl
    rw [Int.add_assoc, Int.add_comm 1, ← Int.natCast_succ] at hpass
    exact .head ⟨(), hstep⟩ hpass

/-- The call has returned and has copied these records. -/
structure Ended (m : Machine) (lines : List Line) (s : State) : Prop where
  pc : s.pc = .done
  copied : s.copied = lines
  reply : s.reply = some (answer m.accepts (text lines))

/-- The end of the call. -/
theorem deliver_ensures {s : State} (h : Buffered bufferLength s) (hpc : s.pc = .deliver) :
    Ensures (quietStep m bufferLength) (Ended m s.copied) s := by
  have hstep : quietStep m bufferLength () s = some (deliver m s) := by
    show callStep m bufferLength s = _
    unfold callStep
    rw [hpc]
  refine .of_step hstep ?_
  rw [deliver_eq h m]
  exact .of_terminal (fun _ => rfl) ⟨rfl, rfl, rfl⟩

/-- **The copying pass** copies what `pick` selects of the lines ahead. -/
theorem copyPass : ∀ (lines : List Line) (s : State), s.pc = .copy → Buffered bufferLength s →
    s.log.unread s.logIter = lines →
    Ensures (quietStep m bufferLength)
      (Ended m (pick bufferLength.toNat s.totalLogLines s.linesProcessed s.copied lines)) s := by
  intro lines
  induction lines with
  | nil =>
    intro s hpc hbuf hunread
    have hget := RingBuffer.getLine_of_nil hunread
    have hstep : quietStep m bufferLength () s = some { s with pc := .deliver } := by
      show callStep m bufferLength s = _
      unfold callStep
      rw [hpc]
      simp only [hget]
    have hbuf' : Buffered bufferLength { s with pc := .deliver } := hbuf.frame rfl rfl rfl
    exact .of_step hstep (deliver_ensures hbuf' rfl)
  | cons line lines ih =>
    intro s hpc hbuf hunread
    obtain ⟨logIter, hget, hrest⟩ := RingBuffer.getLine_of_cons hunread
    have hstep : quietStep m bufferLength () s =
        some (copyLine bufferLength line { s with logIter := logIter }) := by
      show callStep m bufferLength s = _
      unfold callStep
      rw [hpc]
      simp only [hget]
    have hbuf' : Buffered bufferLength { s with logIter := logIter } := hbuf.frame rfl rfl rfl
    refine .of_step hstep ?_
    unfold pick
    obtain ⟨hnew, ⟨hsel, heq⟩ | ⟨hsel, hfull, heq⟩ | ⟨hsel, hroom, _, _, heq⟩⟩ :=
      copyLine_cases hbuf' line
    · rw [heq] at hnew ⊢
      rw [if_neg hsel]
      refine ih _ ?_ hnew hrest
      exact hpc
    · rw [heq] at hnew ⊢
      rw [if_pos hsel, if_pos hfull]
      exact deliver_ensures hnew rfl
    · rw [heq] at hnew ⊢
      rw [if_pos hsel, if_neg (Nat.not_le.mpr hroom)]
      refine ih _ ?_ hnew hrest
      exact hpc

/-- The state in which the copying pass begins after a quiet counting pass. -/
def copyStart (bufferLength : UInt64) (log : RingBuffer Record) (total : Int) : State :=
  { State.init log with
    pc := .copy
    logIter := kmsgDumpRewind
    outputBuffer := List.replicate bufferLength.toNat 0
    totalLogLines := total }

theorem unread_rewind (log : RingBuffer Record) : log.unread kmsgDumpRewind = log.records := by
  unfold RingBuffer.unread RingBuffer.position kmsgDumpRewind
  rw [Nat.zero_max, RingBuffer.records]

/-- The call up to the end of the counting pass. -/
theorem reach_copyStart (hmin : KERNEL_LOG_BUFFER_SIZE ≤ bufferLength.toNat)
    (hkzalloc : m.kzalloc bufferLength.toNat = true)
    (hkmalloc : m.kmalloc KERNEL_LOG_BUFFER_SIZE = true) (log : RingBuffer Record) :
    Reach (quietStep m bufferLength) (.init log)
        (copyStart bufferLength log (toInt log.records.length)) ∧
      Buffered bufferLength (copyStart bufferLength log (toInt log.records.length)) := by
  have hun : Untouched { State.init log with pc := .allocOutput } := ⟨rfl, rfl, rfl, rfl⟩
  refine ⟨?_, (hun.buffered hkzalloc hmin).frame rfl rfl rfl⟩
  have hcheck : quietStep m bufferLength () (.init log) =
      some { State.init log with pc := .allocOutput } := if_neg (Nat.not_lt.mpr hmin)
  have houtput : quietStep m bufferLength () { State.init log with pc := .allocOutput } =
      some { State.init log with
        pc := .allocLine, outputBuffer := List.replicate bufferLength.toNat 0 } :=
    if_pos hkzalloc
  have hline : quietStep m bufferLength ()
      { State.init log with
        pc := .allocLine, outputBuffer := List.replicate bufferLength.toNat 0 } =
      some { State.init log with
        pc := .count, outputBuffer := List.replicate bufferLength.toNat 0 } := if_pos hkmalloc
  have hcount := @countPass m bufferLength log.records
    { State.init log with
      pc := .count, outputBuffer := List.replicate bufferLength.toNat 0 } 0 rfl
    (unread_rewind log) rfl
  rw [Int.zero_add] at hcount
  exact .head ⟨(), hcheck⟩ (.head ⟨(), houtput⟩ (.head ⟨(), hline⟩ hcount))

/-- **The call on a quiet log.** -/
theorem call_quiet (hmin : KERNEL_LOG_BUFFER_SIZE ≤ bufferLength.toNat)
    (hkzalloc : m.kzalloc bufferLength.toNat = true)
    (hkmalloc : m.kmalloc KERNEL_LOG_BUFFER_SIZE = true) (log : RingBuffer Record) :
    Ensures (quietStep m bufferLength)
      (Ended m (pick bufferLength.toNat (toInt log.records.length) 0 [] log.records))
      (.init log) := by
  obtain ⟨hreach, hbuf⟩ := reach_copyStart hmin hkzalloc hkmalloc log
  refine .of_reach hreach ?_
  generalize toInt log.records.length = total at hbuf ⊢
  exact copyPass log.records _ rfl hbuf (unread_rewind log)

/-! ## What is selected -/

/-- Lines one after another, up to the first that does not fit. -/
def fill (limit : Nat) : List Line → List Line → List Line
  | copied, [] => copied
  | copied, line :: lines =>
    if limit ≤ (text (copied ++ [line])).length then copied
    else fill limit (copied ++ [line]) lines

/-- When all lines ahead are among the last five, each is selected. -/
theorem pick_eq_fill {limit n : Nat} (hn : n < 2 ^ 31) : ∀ (lines copied : List Line),
    lines.length ≤ MAX_LOG_ENTRIES → lines.length ≤ n →
    pick limit n ((n - lines.length : Nat) : Int) copied lines = fill limit copied lines
  | [], _, _, _ => rfl
  | line :: lines, copied, hfive, hlen => by
    rw [List.length_cons] at hfive hlen
    have hselected : toInt (n - ((n - (line :: lines).length : Nat) : Int)) ≤ MAX_LOG_ENTRIES := by
      rw [List.length_cons, toInt_of_bounds (by omega) (by omega)]
      omega
    have hnext : toInt (((n - (line :: lines).length : Nat) : Int) + 1) =
        ((n - lines.length : Nat) : Int) := by
      rw [List.length_cons, toInt_of_bounds (by omega) (by omega)]
      omega
    unfold pick fill
    rw [if_pos hselected, hnext, pick_eq_fill hn lines _ (by omega) (by omega)]

/-- **Below `2 ^ 31` lines** the older ones are passed over. -/
theorem pick_eq_fill_last {limit n : Nat} (hn : n < 2 ^ 31) : ∀ (lines : List Line),
    lines.length ≤ n →
    pick limit n ((n - lines.length : Nat) : Int) [] lines =
      fill limit [] (lines.drop (lines.length - MAX_LOG_ENTRIES))
  | [], _ => rfl
  | line :: lines, hlen => by
    by_cases hfive : (line :: lines).length ≤ MAX_LOG_ENTRIES
    · rw [pick_eq_fill hn _ _ hfive hlen, Nat.sub_eq_zero_of_le hfive, List.drop_zero]
    · rw [List.length_cons] at hfive hlen
      have hpassed : ¬ toInt (n - ((n - (line :: lines).length : Nat) : Int)) ≤
          MAX_LOG_ENTRIES := by
        rw [List.length_cons, toInt_of_bounds (by omega) (by omega)]
        omega
      have hnext : toInt (((n - (line :: lines).length : Nat) : Int) + 1) =
          ((n - lines.length : Nat) : Int) := by
        rw [List.length_cons, toInt_of_bounds (by omega) (by omega)]
        omega
      unfold pick
      rw [if_neg hpassed, hnext, pick_eq_fill_last hn lines (by omega), List.length_cons,
        show lines.length + 1 - MAX_LOG_ENTRIES = (lines.length - MAX_LOG_ENTRIES) + 1 by omega,
        List.drop_succ_cons]

/-- **Either every line fits, or a newest part is left out.** -/
theorem fill_cases (limit : Nat) : ∀ (lines copied : List Line), (text copied).length < limit →
    (fill limit copied lines = copied ++ lines ∧ (text (copied ++ lines)).length < limit) ∨
    ∃ i, i < lines.length ∧ fill limit copied lines = copied ++ lines.take i ∧
      limit ≤ (text (copied ++ lines)).length
  | [], copied, h => .inl ⟨(List.append_nil _).symm, by rwa [List.append_nil]⟩
  | line :: lines, copied, h => by
    unfold fill
    by_cases hfull : limit ≤ (text (copied ++ [line])).length
    · rw [if_pos hfull]
      refine .inr ⟨0, Nat.succ_pos _, (List.append_nil _).symm, ?_⟩
      rw [List.append_cons, text_append, List.length_append]
      omega
    · rw [if_neg hfull]
      have hrest := fill_cases limit lines (copied ++ [line]) (Nat.not_le.mp hfull)
      rw [← List.append_cons] at hrest
      rcases hrest with ⟨hall, hroom⟩ | ⟨i, hi, hpart, hover⟩
      · exact .inl ⟨hall, hroom⟩
      · refine .inr ⟨i + 1, Nat.succ_lt_succ hi, ?_, hover⟩
        rw [hpart, List.take_succ_cons, List.append_assoc, List.singleton_append]

/-- What has been copied stays in front. -/
theorem pick_head? (limit : Nat) (total : Int) (line : Line) :
    ∀ (lines copied : List Line) (processed : Int),
      (pick limit total processed (line :: copied) lines).head? = some line := by
  intro lines
  induction lines with
  | nil =>
    intro copied processed
    rfl
  | cons l lines ih =>
    intro copied processed
    unfold pick
    split
    · split
      · rfl
      · exact ih (copied ++ [l]) _
    · exact ih copied _

/-- **From `2 ^ 31` lines on** the counters wrap: the first line to be selected is that far away
    from the newest. -/
theorem pick_wrapped {limit n : Nat} (hlimit : KERNEL_LOG_BUFFER_SIZE ≤ limit) :
    ∀ (lines : List Line), 2 ^ 31 ≤ lines.length → lines.length ≤ n →
    ∃ pre line post, lines = pre ++ line :: post ∧ 2 ^ 31 ≤ post.length + 1 ∧
      (pick limit (toInt n) (toInt (n - lines.length : Nat)) [] lines).head? = some line := by
  intro lines
  induction lines with
  | nil =>
    intro hlong hlen
    rw [List.length_nil] at hlong
    omega
  | cons line lines ih =>
    intro hlong hlen
    rw [List.length_cons] at hlong hlen ⊢
    have hdistance : (n : Int) - ((n - (lines.length + 1) : Nat) : Int) = lines.length + 1 := by
      omega
    have hnext : ((n - (lines.length + 1) : Nat) : Int) + 1 = ((n - lines.length : Nat) : Int) := by
      omega
    unfold pick
    rw [toInt_sub_toInt, hdistance, toInt_toInt_add, hnext]
    split
    · have hroom : ¬ limit ≤ (text ([] ++ [line])).length := by
        have hfits := text_length_le ([] ++ [line])
        have hvalue : KERNEL_LOG_BUFFER_SIZE = 1024 := rfl
        rw [List.nil_append, List.length_singleton] at hfits
        rw [List.nil_append]
        omega
      rw [if_neg hroom]
      exact ⟨[], line, lines, rfl, hlong, pick_head? limit _ line lines [] _⟩
    · rename_i hpassed
      -- at a distance of exactly `2 ^ 31` the difference wraps to a negative number
      have hne : lines.length + 1 ≠ 2 ^ 31 := by
        intro heq
        refine hpassed ?_
        rw [← Int.natCast_succ, Nat.succ_eq_add_one, heq]
        decide
      obtain ⟨pre, l, post, hsplit, hfar, hhead⟩ := ih (by omega) (by omega)
      exact ⟨line :: pre, l, post, by rw [hsplit, List.cons_append], hfar, hhead⟩

/-! ## The newest records that fit -/

/-- `k` is the largest number of newest records, not above five, whose texts fit. -/
structure Largest (log : RingBuffer Record) (limit k : Nat) : Prop where
  le_entries : k ≤ MAX_LOG_ENTRIES
  le_length : k ≤ log.records.length
  fits : (text (log.last k)).length < limit
  greatest : ∀ j, j ≤ MAX_LOG_ENTRIES → j ≤ log.records.length →
    (text (log.last j)).length < limit → j ≤ k

/-- The call has copied these records; if the caller's memory takes them, it returns their texts
    and the length of these. -/
structure Returns (m : Machine) (lines : List Line) (s : State) : Prop where
  copied : s.copied = lines
  reply : (text lines).length ≤ m.accepts →
    s.reply = some ⟨(text lines).length, text lines⟩

theorem Ended.returns {lines : List Line} {s : State} (h : Ended m lines s) :
    Returns m lines s := by
  refine ⟨h.copied, ?_⟩
  intro haccepts
  rw [h.reply]
  unfold answer
  rw [if_neg (Nat.not_lt.mpr haccepts)]

/-- The call alone returns as many of the newest records as fit. -/
def LastLines (m : Machine) (bufferLength : UInt64) (log : RingBuffer Record) : Prop :=
  Ensures (quietStep m bufferLength)
    (fun s => ∃ k, Largest log bufferLength.toNat k ∧ Returns m (log.last k) s) (.init log)

section Selection

variable {log : RingBuffer Record} {limit : Nat}

/-- The newest record always fits. -/
theorem Largest.pos {k : Nat} (h : Largest log limit k) (hlimit : KERNEL_LOG_BUFFER_SIZE ≤ limit)
    (hne : 0 < log.records.length) : 1 ≤ k := by
  have hvalue : KERNEL_LOG_BUFFER_SIZE = 1024 := rfl
  have hlength := log.last_length 1
  have hfits := text_length_le (log.last 1)
  exact h.greatest 1 (by decide) hne (by omega)

/-- All of the last five fit. -/
theorem Largest.of_fits (hfits : (text (log.last MAX_LOG_ENTRIES)).length < limit) :
    Largest log limit (min MAX_LOG_ENTRIES log.records.length) := by
  refine ⟨Nat.min_le_left _ _, Nat.min_le_right _ _, ?_, ?_⟩
  · rw [log.last_min]
    exact hfits
  · intro j hentries hlength _
    exact Nat.le_min.mpr ⟨hentries, hlength⟩

/-- A run of records that starts with the older ones of the last five is not a run of newest
    records. -/
theorem take_ne_last {i k : Nat} (hi : i < (log.last MAX_LOG_ENTRIES).length)
    (hlimit : KERNEL_LOG_BUFFER_SIZE ≤ limit) (hk : Largest log limit k) :
    (log.last MAX_LOG_ENTRIES).take i ≠ log.last k := by
  intro heq
  have hfive := log.last_length MAX_LOG_ENTRIES
  have hkle := hk.le_length
  have hklen := log.last_length k
  rw [log.records_length] at hkle
  have hpos := hk.pos hlimit (by rw [log.records_length]; omega)
  rw [← heq, List.length_take] at hklen
  -- both start with a record, but not with the same one
  obtain ⟨line, hline⟩ : ∃ line, (log.last MAX_LOG_ENTRIES).head? = some line :=
    Option.isSome_iff_exists.mp (by rw [List.isSome_head?]; exact List.ne_nil_of_length_pos (by omega))
  have hline' : (log.last k).head? = some line := by
    rw [← heq, List.head?_take, if_neg (by omega), hline]
  have hnumber := RingBuffer.number_of_last hline
  have hnumber' := RingBuffer.number_of_last hline'
  unfold RingBuffer.lastFrom at hnumber hnumber'
  omega

/-- When the call has copied what `pick` selects, this is what was asked for iff the lines can be
    counted and all of the last five fit. -/
theorem lastLines_outcome {s : State} (hlimit : KERNEL_LOG_BUFFER_SIZE ≤ limit)
    (hended : Ended m (pick limit (toInt log.records.length) 0 [] log.records) s) :
    (∃ k, Largest log limit k ∧ Returns m (log.last k) s) ↔
      log.records.length < 2 ^ 31 ∧ (text (log.last MAX_LOG_ENTRIES)).length < limit := by
  have hzero : log.records.length - log.records.length = 0 := Nat.sub_self _
  by_cases hn : log.records.length < 2 ^ 31
  · have hfill := @pick_eq_fill_last limit _ hn log.records (Nat.le_refl _)
    rw [hzero] at hfill
    have hlast : pick limit (toInt log.records.length) 0 [] log.records =
        fill limit [] (log.last MAX_LOG_ENTRIES) := by
      rw [toInt_natCast hn]
      exact hfill
    rw [hlast] at hended
    have hroom : (text []).length < limit := Nat.lt_of_lt_of_le (by decide) hlimit
    rcases fill_cases limit (log.last MAX_LOG_ENTRIES) [] hroom with ⟨hall, hfits⟩ | ⟨i, hi, hpart, hover⟩
    · refine ⟨fun _ => ⟨hn, hfits⟩, fun _ => ⟨_, Largest.of_fits hfits, ?_⟩⟩
      rw [hall, List.nil_append] at hended
      rw [log.last_min]
      exact hended.returns
    · constructor
      · rintro ⟨k, hk, hreturns⟩
        have heq := hended.copied.symm.trans hreturns.copied
        rw [hpart, List.nil_append] at heq
        exact absurd heq (take_ne_last hi hlimit hk)
      · rintro ⟨-, hfits⟩
        rw [List.nil_append] at hover
        exact absurd hfits (Nat.not_lt.mpr hover)
  · constructor
    · rintro ⟨k, hk, hreturns⟩
      obtain ⟨pre, line, post, hsplit, hfar, hhead⟩ :=
        pick_wrapped hlimit log.records (Nat.not_lt.mp hn) (Nat.le_refl _)
      rw [hzero] at hhead
      have hfirst : (log.last k).head? = some line := by
        rw [← hreturns.copied, hended.copied]
        exact hhead
      have hnumber := RingBuffer.number_of_last hfirst
      have hsplit' := RingBuffer.number_of_split hsplit
      have hentries := hk.le_entries
      have hfive : MAX_LOG_ENTRIES = 5 := rfl
      unfold RingBuffer.lastFrom at hnumber
      omega
    · rintro ⟨hlt, -⟩
      exact absurd hlt hn

end Selection

/-- **The newest records are returned** exactly on the logs of which the last five records fit
    into the buffer and of which all records can be counted in an `int`. -/
theorem lastLines_iff (m : Machine) (bufferLength : UInt64) (log : RingBuffer Record)
    (hmin : KERNEL_LOG_BUFFER_SIZE ≤ bufferLength.toNat)
    (hkzalloc : m.kzalloc bufferLength.toNat = true)
    (hkmalloc : m.kmalloc KERNEL_LOG_BUFFER_SIZE = true) :
    LastLines m bufferLength log ↔
      log.records.length < 2 ^ 31 ∧
        (text (log.last MAX_LOG_ENTRIES)).length < bufferLength.toNat := by
  refine Ensures.iff_of_outcome ((call_quiet hmin hkzalloc hkmalloc log).mono ?_)
  intro s hended
  exact lastLines_outcome hmin hended

/-- The requests the allocators can serve at all. -/
def servable (n : Nat) : Bool := n ≤ KMALLOC_MAX_SIZE

theorem not_servable (n : Nat) (h : KMALLOC_MAX_SIZE < n) : servable n = false := by
  unfold servable
  simpa using h

/-- A kernel that serves every request it can, for a caller with a large buffer. -/
def Machine.ideal : Machine where
  kzalloc := servable
  kmalloc := servable
  accepts := KMALLOC_MAX_SIZE
  kzalloc_max := not_servable

/-- A record that repeats one byte. -/
def repeated (n : Nat) (b : UInt8) (h : n ≤ KERNEL_LOG_BUFFER_SIZE - 1) : Record :=
  ⟨List.replicate n b, by rw [List.length_replicate]; exact h⟩

/-- A log of records of `n` bytes each, the first of them of zeros, the next of ones and so on. -/
def uniformLog (count n : Nat) (h : n ≤ KERNEL_LOG_BUFFER_SIZE - 1) : RingBuffer Record where
  history := (List.range count).map fun i => repeated n i.toUInt8 h
  first := 0
  first_le := Nat.zero_le _

theorem lastLines_six_short : LastLines .ideal 1024 (uniformLog 6 3 (by decide)) :=
  (lastLines_iff .ideal 1024 (uniformLog 6 3 (by decide)) (by decide) (by decide)
    (by decide)).mpr ⟨by decide, by decide⟩

/-- Of five records of 300 bytes the oldest three are returned, the newest is dropped. -/
theorem not_lastLines_five_long : ¬ LastLines .ideal 1024 (uniformLog 5 300 (by decide)) := by
  intro h
  obtain ⟨s, hreach, hterminal, hended⟩ :=
    (@call_quiet .ideal 1024 (by decide) (by decide) (by decide) (uniformLog 5 300 (by decide))).exists_final
  obtain ⟨-, hfits⟩ :=
    (lastLines_outcome (by decide) hended).mp (h.post s hreach hterminal)
  exact absurd hfits (by decide +kernel)

end UsacSyscalls.Log
