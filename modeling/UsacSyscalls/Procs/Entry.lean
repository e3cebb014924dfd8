import UsacSyscalls.Procs.Document
import UsacSyscalls.Lib.JsonStack

/-!
# Reading one printed process

The entry of a process is the process name between a front and a back that are printed for it
(`processText_eq`).  `run_front` and `run_back` read these; `run_back_inv` says where the name has
to leave the reader for the back to be read at all: inside a string that is a value of an object.
-/

set_option autoImplicit false

namespace UsacSyscalls.Procs

open Lib.Decimal Lib.Format Lib.Json

/-! ## Front, name and back -/

def ARRAY_KEY : Bytes := bytes "Procesos_que_mas_memoria_usan"

def PID : Bytes := bytes "pid"

def NAME : Bytes := bytes "name"

def RSS : Bytes := bytes "rss"

def CPU_TIME : Bytes := bytes "cpu_time"

def CPU_PERCENTAGE : Bytes := bytes "cpu_percentage"

/-- The text of an entry up to the quotation mark in front of the name. -/
def front (p : ProcMemInfo) : Bytes :=
  [32, 32, 32, 32, 123] ++ (keyText PID ++ (integer p.pid.toInt ++ 44 :: (keyText NAME ++ [34])))

/-- The text of an entry from the quotation mark behind the name on. -/
def back (p : ProcMemInfo) (separator : Bytes) : Bytes :=
  [34, 44] ++ (keyText RSS ++ (decimal p.rss.toNat ++ 44 :: (keyText CPU_TIME ++
    (decimal p.cpuTime.toNat ++ 44 :: (keyText CPU_PERCENTAGE ++
      (decimal p.cpuPercentage.toNat ++ 32 :: 125 :: (separator ++ [10])))))))

theorem bytes_front_pid : bytes "    \x7b \"pid\": " = [32, 32, 32, 32, 123] ++ keyText PID := by
  simp [bytes, keyText, PID]

theorem bytes_front_name : bytes ", \"name\": \"" = 44 :: (keyText NAME ++ [34]) := by
  simp [bytes, keyText, NAME]

theorem bytes_back_rss : bytes "\", \"rss\": " = [34, 44] ++ keyText RSS := by
  simp [bytes, keyText, RSS]

theorem bytes_back_cpuTime : bytes ", \"cpu_time\": " = 44 :: keyText CPU_TIME := by
  simp [bytes, keyText, CPU_TIME]

theorem bytes_back_cpuPercentage :
    bytes ", \"cpu_percentage\": " = 44 :: keyText CPU_PERCENTAGE := by
  simp [bytes, keyText, CPU_PERCENTAGE]

theorem bytes_back_end : bytes " \x7d" = [32, 125] := by simp [bytes]

/-- **The name stands between the front and the back.** -/
theorem processText_eq (p : ProcMemInfo) (separator : Bytes) :
    processText p separator = front p ++ (p.comm.bytes ++ back p separator) := by
  unfold processText front back
  rw [format_PROCESS]
  simp only [printf_lits, printf, bytes_front_pid, bytes_front_name, bytes_back_rss,
    bytes_back_cpuTime, bytes_back_cpuPercentage, bytes_back_end, List.append_assoc,
    List.cons_append, List.nil_append]

/-! ## Reading the front and the back -/

/-- A `%lu` text is a number. -/
theorem integer_natCast (n : Nat) : integer (n : Int) = decimal n := by
  unfold integer
  rw [if_neg (by omega), Int.natAbs_natCast]

/-- The keys as lists of bytes. -/
theorem key_eq : PID = [112, 105, 100] ∧ NAME = [110, 97, 109, 101] ∧ RSS = [114, 115, 115] ∧
    CPU_TIME = [99, 112, 117, 95, 116, 105, 109, 101] ∧
    CPU_PERCENTAGE = [99, 112, 117, 95, 112, 101, 114, 99, 101, 110, 116, 97, 103, 101] := by
  simp [PID, NAME, RSS, CPU_TIME, CPU_PERCENTAGE, bytes]

theorem key_plain : PID.all isPlain = true ∧ NAME.all isPlain = true ∧ RSS.all isPlain = true ∧
    CPU_TIME.all isPlain = true ∧ CPU_PERCENTAGE.all isPlain = true := by
  obtain ⟨hpid, hname, hrss, hcpuTime, hcpuPercentage⟩ := key_eq
  rw [hpid, hname, hrss, hcpuTime, hcpuPercentage]
  decide

theorem run_front {m : Mode} (hm : m.wantsValue) (st : List Frame) (p : ProcMemInfo) :
    run ⟨m, st⟩ (front p) =
      some ⟨.str false [], .obj [(PID, .num (integer p.pid.toInt))] NAME :: st⟩ := by
  have hopen : run ⟨m, st⟩ [32, 32, 32, 32, 123] = some ⟨.objStart, .obj [] [] :: st⟩ := by
    rcases hm with rfl | rfl <;> rfl
  unfold front
  rw [run_append, hopen, Option.bind_some, run_append, run_key (.inl rfl) key_plain.1,
    Option.bind_some, run_integer _ (by decide)]
  show (some (State.mk .key (.obj [(PID, .num (integer p.pid.toInt))] [] :: st))).bind _ = _
  rw [Option.bind_some, run_append, run_key (.inr rfl) key_plain.2.1]
  rfl

/-- Between two members of an object no entry can start. -/
theorem run_front_key (st : List Frame) (p : ProcMemInfo) : run ⟨.key, st⟩ (front p) = none := by
  have hopen : run ⟨.key, st⟩ [32, 32, 32, 32, 123] = none := rfl
  unfold front
  rw [run_append, hopen, Option.bind_none]

/-- What the back of an entry adds to the object it is read in. -/
def measures (p : ProcMemInfo) : Members :=
  [(RSS, .num (decimal p.rss.toNat)), (CPU_TIME, .num (decimal p.cpuTime.toNat)),
    (CPU_PERCENTAGE, .num (decimal p.cpuPercentage.toNat))]

/-- One number of the back and the comma behind it. -/
theorem run_measure {k : Bytes} (hk : k.all isPlain = true) (n : Nat) (rest : Bytes) (ms : Members)
    (st : List Frame) :
    run ⟨.key, .obj ms [] :: st⟩ (keyText k ++ (decimal n ++ 44 :: rest)) =
      run ⟨.key, .obj (ms ++ [(k, .num (decimal n))]) [] :: st⟩ rest := by
  rw [run_append, run_key (.inr rfl) hk, Option.bind_some, ← integer_natCast,
    run_integer _ (by decide)]
  rfl

theorem run_back (acc : Bytes) (ms : Members) (k : Bytes) (st : List Frame) (p : ProcMemInfo)
    (separator : Bytes) :
    run ⟨.str false acc, .obj ms k :: st⟩ (back p separator) =
      run (deliver (.obj (ms ++ (k, .str acc) :: measures p)) st) (separator ++ [10]) := by
  have hquote : run ⟨.str false acc, .obj ms k :: st⟩ [34, 44] =
      some ⟨.key, .obj (ms ++ [(k, .str acc)]) [] :: st⟩ := rfl
  have hlast : ∀ v : Json, ∀ ms' : Members,
      afterValue (deliver v (.obj ms' CPU_PERCENTAGE :: st)) 32 =
        some ⟨.next, .obj (ms' ++ [(CPU_PERCENTAGE, v)]) [] :: st⟩ := fun _ _ => rfl
  have hclose : ∀ ms' : Members, step ⟨.next, .obj ms' [] :: st⟩ 125 =
      some (deliver (.obj ms') st) := fun _ => rfl
  unfold back
  rw [run_append, hquote, Option.bind_some, run_measure key_plain.2.2.1, run_measure key_plain.2.2.2.1,
    run_append, run_key (.inr rfl) key_plain.2.2.2.2, Option.bind_some,
    ← integer_natCast p.cpuPercentage.toNat, run_integer _ (by decide), hlast, Option.bind_some,
    run_cons, hclose, Option.bind_some, integer_natCast]
  simp only [measures, List.append_assoc, List.cons_append, List.nil_append]

/-! ## Where the back can be read -/

theorem run_append_none {s : State} {xs ys : Bytes} (h : run s xs = none) :
    run s (xs ++ ys) = none := by
  rw [run_append, h, Option.bind_none]

/-- The start of the back, up to the colon behind the first key. -/
def backHead : Bytes := [34, 44, 32, 34, 114, 115, 115, 34, 58]

theorem back_eq (p : ProcMemInfo) (separator : Bytes) :
    ∃ rest, back p separator = backHead ++ rest := by
  have hhead : [34, 44] ++ keyText RSS = backHead ++ [32] := by
    simp [keyText, RSS, bytes, backHead]
  have hback : ∀ rest : Bytes, [34, 44] ++ (keyText RSS ++ rest) = backHead ++ ([32] ++ rest) := by
    intro rest
    rw [← List.append_assoc, hhead, List.append_assoc]
  exact ⟨_, hback _⟩

theorem run_backHead_str (acc : Bytes) (st : List Frame)
    (h : ∀ ms k st', st ≠ .obj ms k :: st') : run ⟨.str false acc, st⟩ backHead = none := by
  cases st with
  | nil => rfl
  | cons f st =>
    cases f with
    | arr els => rfl
    | obj ms k => exact absurd rfl (h ms k st)

/-- A value never ends with the start of the back: a letter would stand behind it. -/
theorem run_value_then_letter (v : Json) (st : List Frame) (rest : Bytes) :
    run (deliver v st) (114 :: rest) = none := by
  cases st with
  | nil => rfl
  | cons f st => cases f <;> rfl

theorem step_word_quote (w : Word) (read : Nat) (st : List Frame) :
    step ⟨.word w read, st⟩ 34 = none := by
  have hne : w.text[read]? ≠ some 34 := by
    intro h
    have hmem := List.mem_of_getElem? h
    revert hmem
    cases w <;> decide
  simp only [step, hne, if_false]

theorem step_num_quote (phase : Phase) (acc : Bytes) (st : List Frame) :
    step ⟨.num phase acc, st⟩ 34 = none := by
  have hnext : phase.next 34 = none := by cases phase <;> rfl
  have hafter : afterValue (deliver (.num acc) st) 34 = none := by
    cases st with
    | nil => rfl
    | cons f st => cases f <;> rfl
  simp only [step, hnext, hafter, ite_self]

/-- **The back of an entry is only read inside a string that is a value of an object.** -/
theorem run_back_inv {s s' : State} {p : ProcMemInfo} {separator : Bytes}
    (h : run s (back p separator) = some s') :
    ∃ acc ms k st, s = ⟨.str false acc, .obj ms k :: st⟩ := by
  obtain ⟨rest, hback⟩ := back_eq p separator
  rw [hback] at h
  have hsome : run s backHead ≠ none := by
    intro hnone
    rw [run_append_none hnone] at h
    cases h
  obtain ⟨m, st⟩ := s
  cases m with
  | str isKey acc =>
    cases isKey with
    | true => exact absurd rfl hsome
    | false =>
      by_contra hno
      exact hsome (run_backHead_str acc st fun ms k st' hst => hno ⟨acc, ms, k, st', by rw [hst]⟩)
  | value => exact absurd (run_value_then_letter (.str [44, 32]) st _) hsome
  | arrStart => exact absurd (run_value_then_letter (.str [44, 32]) st _) hsome
  | objStart => exact absurd rfl hsome
  | key => exact absurd rfl hsome
  | colon k => exact absurd rfl hsome
  | next => exact absurd rfl hsome
  | done v => exact absurd rfl hsome
  | esc isKey acc =>
    cases isKey with
    | true => exact absurd rfl hsome
    | false => exact absurd (run_value_then_letter (.str (acc ++ [34] ++ [44] ++ [32])) st _) hsome
  | hex isKey acc left code => exact absurd rfl hsome
  | num phase acc =>
    refine absurd ?_ hsome
    rw [backHead, run_cons, step_num_quote, Option.bind_none]
  | word w read =>
    refine absurd ?_ hsome
    rw [backHead, run_cons, step_word_quote, Option.bind_none]

end UsacSyscalls.Procs
