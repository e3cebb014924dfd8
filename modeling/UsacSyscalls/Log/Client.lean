import Mathlib.Data.List.TakeWhile
import UsacSyscalls.Cipher.UserPrograms
import UsacSyscalls.Lib.CString
import UsacSyscalls.Log.Writers

/-!
# The program that shows the log

Reference model of `llamadas_al_sistema.c`, which prints the time since boot, the time of day and
what `retrieve_last_five_logs` leaves in a buffer on its stack.

* `reach_prints` — whatever the writers of the log do during the call, the program prints the
  records that the call has copied and nothing of what was on the stack before.
-/

set_option autoImplicit false

namespace UsacSyscalls.Log

open Lib Lib.CString Lib.Run
open Cipher (libcSyscall)

def LOG_BUFFER_SIZE : Nat := 1024

/-- A line of output: a format with its argument, or a message of `perror`. -/
inductive Printed where
  | long (format : String) (arg : Int)
  | text (format : String) (arg : Bytes)
  | perror (message : String)
  deriving DecidableEq, Repr

structure Exit where
  status : Nat
  out : List Printed
  deriving DecidableEq, Repr

/-- What `%.*s` prints: at most `n` bytes and none from the first NUL on, or the whole string if `n`
    is negative; `none` when the buffer is left. -/
def precision (n : Int) (buf : Bytes) : Option Bytes :=
  if n < 0 then if 0 ∈ buf then some (cString buf) else none
  else if n.toNat ≤ buf.length ∨ 0 ∈ buf then some (cString (buf.take n.toNat))
  else none

/-- `main`, from the return values of its first two calls, the answer of the third and what
    `log_buffer` held before. -/
def main (uptime time : Int) (reply : Reply) (logBuffer : Bytes) : Option Exit :=
  let systemUptime := libcSyscall uptime
  if systemUptime = -1 then some ⟨1, [.perror "Error al obtener el tiempo de actividad"]⟩
  else
    let first := Printed.long "Tiempo desde el último arranque: %ld segundos\n" systemUptime
    let currentTime := libcSyscall time
    if currentTime = -1 then some ⟨1, [first, .perror "Error al obtener el tiempo actual"]⟩
    else
      let second := Printed.long "Tiempo actual en segundos desde el eponch: %ld\n" currentTime
      let logSize := libcSyscall reply.ret
      if logSize < 0 then
        some ⟨1, [first, second,
          .perror "Error al recuperar los últimos cinco mensajes de registro"]⟩
      else
        (precision (toInt logSize) (overwrite logBuffer reply.delivered)).map fun shown =>
          ⟨0, [first, second, .text "Últimos 5 mensajes del registro:\n%.*s\n" shown]⟩

/-! ## What is printed -/

/-- The first `n` bytes of a buffer are those that have been delivered. -/
theorem precision_overwrite {buf bs : Bytes} (h : bs.length ≤ buf.length) :
    precision bs.length (overwrite buf bs) = some (cString bs) := by
  have hnonneg : ¬ ((bs.length : Int) < 0) := by omega
  have hroom : bs.length ≤ (overwrite buf bs).length := by rwa [overwrite_length h]
  rw [precision, if_neg hnonneg, Int.toNat_natCast, if_pos (.inl hroom), overwrite,
    List.take_left]

variable {m : Machine} {log : RingBuffer Record} {s : State} {r : Reply}

/-- What a call with the buffer of `main` has returned. -/
theorem reach_reply (h : Reach (step m 1024) (.init log) s) (hdone : s.pc = .done)
    (hreply : s.reply = some r) :
    r.ret < 0 ∨ r = ⟨(text s.copied).length, text s.copied⟩ ∧ (text s.copied).length < 1024 := by
  have hinv := reach_inv h
  unfold Inv at hinv
  rw [hdone] at hinv
  obtain ⟨r', hr', hanswer⟩ := hinv
  rw [hreply] at hr'
  obtain rfl := Option.some.inj hr'
  rcases hanswer with hneg | ⟨hbuffered, rfl⟩
  · exact .inl hneg
  · unfold answer
    split
    · exact .inl EFAULT.ret_neg
    · exact .inr ⟨rfl, hbuffered.lt⟩

theorem libcSyscall_natCast (n : Nat) : libcSyscall n = n := by
  unfold libcSyscall
  rw [if_neg (by omega)]

theorem libcSyscall_neg {ret : Int} (h : ret < 0) : libcSyscall ret < 0 := by
  unfold libcSyscall
  split <;> omega

/-- Everything but the log. -/
def times (uptime time : Int) : List Printed :=
  [.long "Tiempo desde el último arranque: %ld segundos\n" (libcSyscall uptime),
    .long "Tiempo actual en segundos desde el eponch: %ld\n" (libcSyscall time)]

theorem main_fails {uptime time : Int}
    (h : libcSyscall uptime = -1 ∨ libcSyscall time = -1 ∨ r.ret < 0) :
    ∃ out, ∀ logBuffer, main uptime time r logBuffer = some ⟨1, out⟩ := by
  by_cases hup : libcSyscall uptime = -1
  · exact ⟨_, fun _ => if_pos hup⟩
  by_cases htime : libcSyscall time = -1
  · exact ⟨_, fun _ => (if_neg hup).trans (if_pos htime)⟩
  · have hret : libcSyscall r.ret < 0 := libcSyscall_neg ((h.resolve_left hup).resolve_left htime)
    exact ⟨_, fun _ => (if_neg hup).trans ((if_neg htime).trans (if_pos hret))⟩

theorem main_ok {uptime time : Int} {bs logBuffer : Bytes} (hup : libcSyscall uptime ≠ -1)
    (htime : libcSyscall time ≠ -1) (hbs : bs.length < 1024) (hlength : logBuffer.length = 1024) :
    main uptime time ⟨bs.length, bs⟩ logBuffer = some ⟨0, times uptime time ++
      [.text "Últimos 5 mensajes del registro:\n%.*s\n" (cString bs)]⟩ := by
  have hnonneg : ¬ libcSyscall (bs.length : Int) < 0 := by
    rw [libcSyscall_natCast]
    omega
  rw [main, if_neg hup, if_neg htime, if_neg hnonneg, libcSyscall_natCast,
    toInt_natCast (by omega), precision_overwrite (by omega)]
  rfl

theorem cString_text {lines : List Line} (h : ∀ line ∈ lines, 0 ∉ line.1.text) :
    cString (text lines) = text lines := by
  refine List.takeWhile_eq_self_iff.mpr fun b hb => ?_
  obtain ⟨line, hline, hb⟩ := List.mem_flatMap.mp hb
  simp only [bne_iff_ne, ne_eq]
  rintro rfl
  exact h line hline hb

/-- **What the program prints**: whatever the writers of the log do during the call and whatever was
    on the stack before, it succeeds exactly when all three calls do, and then prints the records
    that the third one has copied, all of them if there is no NUL in them. -/
theorem reach_prints (uptime time : Int) (h : Reach (step m 1024) (.init log) s)
    (hdone : s.pc = .done) (hreply : s.reply = some r) :
    ∃ exit, (∀ logBuffer, logBuffer.length = LOG_BUFFER_SIZE →
        main uptime time r logBuffer = some exit) ∧
      (exit.status = 0 ↔ libcSyscall uptime ≠ -1 ∧ libcSyscall time ≠ -1 ∧ 0 ≤ r.ret) ∧
      (exit.status = 0 → ∃ shown, exit.out = times uptime time ++
          [.text "Últimos 5 mensajes del registro:\n%.*s\n" shown] ∧
        shown = cString (text s.copied) ∧
        ((∀ line ∈ s.copied, 0 ∉ line.1.text) → shown = text s.copied)) := by
  by_cases hfail : libcSyscall uptime = -1 ∨ libcSyscall time = -1 ∨ r.ret < 0
  · obtain ⟨out, hout⟩ := main_fails hfail
    refine ⟨_, fun logBuffer _ => hout logBuffer, ?_, fun h => absurd h Nat.one_ne_zero⟩
    have hnot : ¬ (libcSyscall uptime ≠ -1 ∧ libcSyscall time ≠ -1 ∧ 0 ≤ r.ret) := by
      rintro ⟨hup, htime, hret⟩
      rcases hfail with h | h | h
      · exact hup h
      · exact htime h
      · omega
    exact ⟨fun h => absurd h Nat.one_ne_zero, fun h => absurd h hnot⟩
  · simp only [not_or, Int.not_lt] at hfail
    obtain ⟨hup, htime, hret⟩ := hfail
    rcases reach_reply h hdone hreply with hneg | ⟨rfl, hlt⟩
    · omega
    · exact ⟨_, fun logBuffer hlength => main_ok hup htime hlt hlength,
        ⟨fun _ => ⟨hup, htime, hret⟩, fun _ => rfl⟩, fun _ => ⟨_, rfl, rfl, cString_text⟩⟩

/-- A record is logged before the call, another one while it counts, and one is dropped while it
    copies. -/
def shared : List Actor :=
  [.append (repeated 2 65 (by decide)), .call, .call, .call, .call,
    .append (repeated 2 66 (by decide)), .call, .call, .call, .call, .drop, .call, .call]

theorem reach_prints_shared : ∃ s r exit, exec (step .ideal 1024) shared (.init emptyLog) = some s ∧
    s.reply = some r ∧ r.ret = 4 ∧ exit.status = 0 ∧
      ∀ logBuffer, logBuffer.length = LOG_BUFFER_SIZE →
        main 100 1700000000 r logBuffer = some exit := by
  have hrun : (exec (step .ideal 1024) shared (.init emptyLog)).map
      (fun s => (s.pc, s.reply.map Reply.ret)) = some (.done, some 4) := by decide +kernel
  obtain ⟨s, hs, heq⟩ := Option.map_eq_some_iff.mp hrun
  obtain ⟨hdone, hret⟩ := Prod.mk.inj heq
  obtain ⟨r, hreply, hfour⟩ := Option.map_eq_some_iff.mp hret
  obtain ⟨exit, hexit, hstatus, -⟩ :=
    reach_prints 100 1700000000 (reach_of_exec _ hs) hdone hreply
  exact ⟨s, r, exit, hs, hreply, hfour, hstatus.mpr ⟨by decide, by decide, by omega⟩, hexit⟩

end UsacSyscalls.Log
