import UsacSyscalls.Backend.SystemInfo
import UsacSyscalls.Procs.Checked

/-!
# Which buffers `procesos_info` can serve

The size of the buffer is the caller's, a `size_t` of which `int output_size` keeps the low 32
bits.  Nothing tests it, and the results of the `snprintf` calls are not looked at.

* `handlesSize_iff` — the sizes for which a call stays inside its buffer and returns 0 only with
  the complete document.
* `processList_fits` — 912 bytes, as the backend passes them, suffice for every list of processes.
-/

set_option autoImplicit false

namespace UsacSyscalls.Procs

open Lib.CString Backend

/-! ## Every size -/

/-- The call returns, so that none of its accesses is outside of `output`; it delivers no more than
    `size` bytes; and it returns 0 with the complete document, or an error. -/
def HandlesSize (m : Machine) (table : List Task) (size : UInt64) : Prop :=
  ∃ answer, procesosInfoChecked m table size = .ok answer ∧
    answer.delivered.length ≤ size.toNat ∧
    (answer.ret = 0 ∧ answer.delivered = document (collected m table) ∨ answer.ret < 0)

/-- The low 32 bits of the size leave room for the document and its NUL; or they are not zero, and
    the memory of the caller ends before the text that is left of the document. -/
def Suffices (m : Machine) (table : List Task) (size : UInt64) : Prop :=
  (document (collected m table)).length < size.toNat % 2 ^ 32 ∨
    0 < size.toNat % 2 ^ 32 ∧
      m.accepts < min (size.toNat % 2 ^ 32 - 1) (document (collected m table)).length

section Sizes

variable {m : Machine} {table : List Task} {size : UInt64}

theorem checked_ok (hdiv : ¬ DividesByZero m table) (harray : m.kmallocArray = true) :
    procesosInfoChecked m table size =
      (procesosInfoBody m (collected m table) size).elim (.error .outside) .ok := by
  rcases obtener_cases m table with ⟨hfalse, -⟩ | ⟨hyes, -⟩ | ⟨-, -, hok⟩
  · rw [harray] at hfalse
    cases hfalse
  · exact absurd hyes hdiv
  · unfold procesosInfoChecked
    simp only [hok]
    cases procesosInfoBody m (collected m table) size <;> rfl

/-- A call that got its buffer handles its size iff the size suffices. -/
theorem handlesSize_of_memory (hdiv : ¬ DividesByZero m table) (harray : m.kmallocArray = true)
    (hmem : m.kmalloc (outputSize size) = true) :
    HandlesSize m table size ↔ Suffices m table size := by
  obtain ⟨-, hsize⟩ := toInt_of_kmalloc hmem
  have hcall := @checked_ok m table size hdiv harray
  unfold HandlesSize Suffices
  rw [hcall, ← hsize]
  rcases Nat.eq_zero_or_pos (outputSize size) with hzero | hpos
  · rw [procesosInfoBody_empty _ hzero, Option.elim_none]
    constructor
    · rintro ⟨_, h, -⟩
      cases h
    · omega
  · obtain ⟨answer, hbody, hreply, -⟩ := procesosInfoBody_eq (collected m table) hmem hpos
    rw [hbody, Option.elim_some]
    obtain ⟨doc, hdoc⟩ : ∃ doc, doc = document (collected m table) := ⟨_, rfl⟩
    rw [← hdoc] at hreply ⊢
    have hcut : (doc.take (outputSize size - 1)).length = min (outputSize size - 1) doc.length :=
      List.length_take
    have hbound : answer.delivered.length ≤ size.toNat := by
      rw [hreply, copyToUser_delivered, List.length_take, hcut]
      omega
    -- the call fails when the caller's memory ends before the text that is left
    by_cases hacc : m.accepts < min (outputSize size - 1) doc.length
    · rw [copyToUser_fault (by rw [hcut]; exact hacc)] at hreply
      have hret : answer.ret = EFAULT.ret := by rw [hreply]
      refine iff_of_true ⟨answer, rfl, hbound, Or.inr ?_⟩ (Or.inr ⟨hpos, hacc⟩)
      rw [hret]
      exact EFAULT.ret_neg
    · rw [copyToUser_all (by rw [hcut]; exact Nat.not_lt.mp hacc)] at hreply
      have hret : answer.ret = 0 := by rw [hreply]
      have hdelivered : answer.delivered = doc.take (outputSize size - 1) := by
        rw [hreply]
      constructor
      · rintro ⟨answer', heq, -, hanswer⟩
        cases heq
        rw [hret, hdelivered] at hanswer
        rcases hanswer with ⟨-, hcomplete⟩ | hneg
        · rw [hcomplete] at hcut
          exact Or.inl (by omega)
        · exact absurd hneg (Int.lt_irrefl 0)
      · rintro (hroom | ⟨-, hfault⟩)
        · refine ⟨answer, rfl, hbound, Or.inl ⟨hret, ?_⟩⟩
          rw [hdelivered, List.take_of_length_le (by omega)]
        · exact absurd hfault hacc

/-- **Every size that is handled**: without a division by zero, and when both allocations are
    served, the low 32 bits of the size have to suffice. -/
theorem handlesSize_iff (m : Machine) (table : List Task) (size : UInt64) :
    HandlesSize m table size ↔ ¬ DividesByZero m table ∧
      (m.kmallocArray = true → m.kmalloc (outputSize size) = true → Suffices m table size) := by
  rcases obtener_cases m table with ⟨hfalse, herror⟩ | ⟨hdiv, hnone⟩ | ⟨harray, hdiv, -⟩
  · refine iff_of_true ?_ ⟨?_, ?_⟩
    · refine ⟨⟨⟨ENOMEM.ret, []⟩, []⟩, ?_, Nat.zero_le _, Or.inr ENOMEM.ret_neg⟩
      unfold procesosInfoChecked
      simp only [herror]
    · rintro ⟨htrue, -⟩
      rw [hfalse] at htrue
      cases htrue
    · intro htrue
      rw [hfalse] at htrue
      cases htrue
  · refine iff_of_false ?_ fun h => h.1 hdiv
    rintro ⟨answer, h, -⟩
    unfold procesosInfoChecked at h
    simp only [hnone] at h
    cases h
  · cases hmem : m.kmalloc (outputSize size) with
    | true =>
      rw [handlesSize_of_memory hdiv harray hmem]
      exact ⟨fun h => ⟨hdiv, fun _ _ => h⟩, fun h => h.2 harray rfl⟩
    | false =>
      refine iff_of_true ?_ ⟨hdiv, fun _ h => by cases h⟩
      refine ⟨⟨⟨ENOMEM.ret, []⟩, []⟩, ?_, Nat.zero_le _, Or.inr ENOMEM.ret_neg⟩
      rw [checked_ok hdiv harray, procesosInfoBody_no_memory _ hmem, Option.elim_some]

end Sizes

/-- With one process: a size of 0, whose buffer has no byte for `strlen`; and a size beyond
    `2 ^ 32`, of which one byte less is left than the document takes with its NUL. -/
theorem not_handlesSize_narrowed :
    ¬ HandlesSize .ideal [.ofPages 1 1] 0 ∧ ¬ HandlesSize .ideal [.ofPages 1 1] 4294967419 := by
  have hdiv : ¬ DividesByZero .ideal [.ofPages 1 1] := fun h => absurd h.2.1 (by decide)
  have hdoc : (document (collected .ideal [.ofPages 1 1])).length = 123 := by decide +kernel
  have haccepts : Machine.ideal.accepts = 912 := rfl
  constructor
  · intro h
    have hsuffices := (handlesSize_of_memory hdiv rfl (by decide)).mp h
    unfold Suffices at hsuffices
    rw [hdoc, haccepts] at hsuffices
    revert hsuffices
    decide
  · intro h
    have hsuffices := (handlesSize_of_memory hdiv rfl (by decide)).mp h
    unfold Suffices at hsuffices
    rw [hdoc, haccepts] at hsuffices
    revert hsuffices
    decide

/-! ## The buffer of the backend -/

/-- **912 bytes always suffice**: for every list of processes no `snprintf` is cut off, and what
    the backend finds in its buffer is the complete document, with a NUL behind it that the call
    has not copied.  A call that has collected these processes answers so. -/
theorem processList_fits (m : Machine) (procs : List ProcMemInfo)
    (hmem : m.kmalloc SYSTEM_INFO_SIZE = true) (hacc : SYSTEM_INFO_SIZE ≤ m.accepts) :
    ∃ answer, procesosInfoBody m procs 912 = some answer ∧
      (answer.calls.map Prod.snd).flatten = document procs ∧
      (∀ call ∈ answer.calls, call.2.length < call.1) ∧
      answer.delivered = document procs ∧ (0 : UInt8) ∉ answer.delivered ∧
      getSystemInfo answer.toReply = some (document procs) ∧
      (overwrite (List.replicate SYSTEM_INFO_SIZE 0) answer.delivered).length =
        SYSTEM_INFO_SIZE ∧
      Holds (overwrite (List.replicate SYSTEM_INFO_SIZE 0) answer.delivered) (document procs) ∧
      ∀ table, obtenerInfoProcesos m table = some (.ok procs) →
        procesosInfoChecked m table 912 = .ok answer := by
  have hsize : outputSize 912 = SYSTEM_INFO_SIZE := by decide
  have hlength := document_length procs
  have hdef : SYSTEM_INFO_SIZE = 912 := rfl
  have hserved : m.kmalloc (outputSize 912) = true := by
    rw [hsize]
    exact hmem
  obtain ⟨answer, hbody, hreply, hcomplete, htexts⟩ :=
    procesosInfoBody_eq procs hserved (by rw [hsize]; decide)
  rw [hsize, List.take_of_length_le (by omega), copyToUser_all (by omega)] at hreply
  rw [hsize] at hcomplete
  have hret : answer.ret = 0 := by rw [hreply]
  have hdelivered : answer.delivered = document procs := by rw [hreply]
  have hnul := zero_not_mem_document procs
  refine ⟨answer, hbody, htexts, hcomplete (by omega), hdelivered, by rw [hdelivered]; exact hnul,
    getSystemInfo_eq hret hnul (Or.inr ⟨hdelivered, by omega⟩), ?_, ⟨?_, hnul⟩, ?_⟩
  · rw [hdelivered, overwrite_length (by rw [List.length_replicate]; omega),
      List.length_replicate]
  · refine ⟨List.replicate (SYSTEM_INFO_SIZE - (document procs).length - 1) 0, ?_⟩
    have hrest : SYSTEM_INFO_SIZE - (document procs).length =
        SYSTEM_INFO_SIZE - (document procs).length - 1 + 1 := by omega
    rw [hdelivered, overwrite, List.drop_replicate, hrest, List.replicate_succ]
    rfl
  · intro table htable
    unfold procesosInfoChecked
    simp only [htable, hbody]

/-- A process that has the longest name and the longest numbers. -/
def longestProcess : ProcMemInfo where
  pid := -2147483648
  rss := 18446744073709551615
  cpuTime := 18446744073709551615
  comm := ⟨List.replicate 15 65, by decide, by decide⟩
  cpuPercentage := 18446744073709551615

theorem processList_fits_longest : ∃ answer,
    procesosInfoBody .ideal (List.replicate 5 longestProcess) 912 = some answer ∧
      getSystemInfo answer.toReply = some (document (List.replicate 5 longestProcess)) := by
  obtain ⟨answer, hbody, -, -, -, -, hinfo, -⟩ :=
    processList_fits .ideal (List.replicate 5 longestProcess) (by decide) (by decide)
  exact ⟨answer, hbody, hinfo⟩

end UsacSyscalls.Procs
