import UsacSyscalls.Procs.Entry
import UsacSyscalls.Procs.TopFive
import Mathlib.Data.List.Forall2

/-!
# What the text of `procesos_info` decodes to

The names are printed between quotation marks as they are.

* `run_document` — with plain names the text is one JSON document with one object for each process.
* `plain_of_decodes` — a document that decodes to the processes has plain names only: the first
  name that is not plain is read as a shorter one.
* `decodesProcs_iff` — a successful call writes a text that decodes to its processes iff every
  listed name is plain.
-/

set_option autoImplicit false

namespace UsacSyscalls.Procs

open Lib.Decimal Lib.Format Lib.Json

/-! ## The header and the footer -/

theorem headerText_eq_key : headerText = [123, 10, 32] ++ (keyText ARRAY_KEY ++ [91, 10]) := by
  rw [headerText_eq]
  simp [bytes, HEADER_FORMAT, keyText, ARRAY_KEY]

theorem arrayKey_plain : ARRAY_KEY.all isPlain = true := by
  simp [ARRAY_KEY, bytes, isPlain]

theorem run_headerText :
    run .start headerText = some ⟨.arrStart, [.arr [], .obj [] ARRAY_KEY]⟩ := by
  have hopen : run .start [123, 10, 32] = some ⟨.objStart, [.obj [] []]⟩ := rfl
  rw [headerText_eq_key, run_append, hopen, Option.bind_some, run_append,
    run_key (.inl rfl) arrayKey_plain]
  rfl

/-- The document with these elements. -/
def listJson (els : List Json) : Json := .obj [(ARRAY_KEY, .arr els)]

theorem run_footerText {m : Mode} (hm : m = .next ∨ m = .arrStart) (els : List Json) :
    run ⟨m, [.arr els, .obj [] ARRAY_KEY]⟩ footerText = some ⟨.done (listJson els), []⟩ := by
  rw [footerText_eq]
  rcases hm with rfl | rfl <;> rfl

/-! ## The entries -/

/-- The object that the entry of a process stands for, under the name `name`. -/
def entryJson (p : ProcMemInfo) (name : Bytes) : Json :=
  .obj ((PID, .num (integer p.pid.toInt)) :: (NAME, .str name) :: measures p)

/-- The separator behind an entry that is followed by `ps`. -/
def separatorOf (ps : List ProcMemInfo) : Bytes := if ps = [] then bytes "" else bytes ","

/-- What is expected behind an entry that is followed by `ps`. -/
def modeAfter (ps : List ProcMemInfo) : Mode := if ps = [] then .next else .value

theorem run_separator (e : Json) (els : List Json) (st : List Frame) (ps : List ProcMemInfo) :
    run (deliver e (.arr els :: st)) (separatorOf ps ++ [10]) =
      some ⟨modeAfter ps, .arr (els ++ [e]) :: st⟩ := by
  unfold separatorOf modeAfter
  split
  · rfl
  · rw [bytes_separator.2]
    rfl

/-- The rest of the text in front of the processes `ps`. -/
def restText (ps : List ProcMemInfo) : Bytes := entriesText ps ++ footerText

theorem restText_cons (p : ProcMemInfo) (ps : List ProcMemInfo) :
    restText (p :: ps) =
      front p ++ (p.comm.bytes ++ (back p (separatorOf ps) ++ restText ps)) := by
  unfold restText
  rw [entriesText_cons, ← separatorOf.eq_1, processText_eq]
  simp only [List.append_assoc]

/-- What may be expected in front of the processes `ps`. -/
def Expects (m : Mode) (ps : List ProcMemInfo) : Prop :=
  if ps = [] then m = .next ∨ m = .arrStart else m.wantsValue

theorem expects_modeAfter (ps : List ProcMemInfo) : Expects (modeAfter ps) ps := by
  unfold Expects modeAfter
  split
  · exact .inl rfl
  · exact .inl rfl

theorem expects_arrStart (ps : List ProcMemInfo) : Expects .arrStart ps := by
  unfold Expects
  split
  · exact .inr rfl
  · exact .inr rfl

/-- The name stands for itself between quotation marks: it contains no quotation mark, no
    backslash and no control character. -/
def PlainName (p : ProcMemInfo) : Prop := p.comm.bytes.all isPlain = true

theorem run_plain_entry {m : Mode} (hm : m.wantsValue) {p : ProcMemInfo} (hp : PlainName p)
    (els : List Json) (st : List Frame) (ps : List ProcMemInfo) (rest : Bytes) :
    run ⟨m, .arr els :: st⟩ (front p ++ (p.comm.bytes ++ (back p (separatorOf ps) ++ rest))) =
      run ⟨modeAfter ps, .arr (els ++ [entryJson p p.comm.bytes]) :: st⟩ rest := by
  rw [run_append, run_front hm, Option.bind_some, run_append, run_plain _ _ _ _ hp,
    Option.bind_some, run_append, run_back, List.nil_append, List.singleton_append,
    ← entryJson.eq_1, run_separator, Option.bind_some]

/-- **Plain names**: every process has its object. -/
theorem run_restText : ∀ {ps : List ProcMemInfo} {m : Mode} (els : List Json), Expects m ps →
    (∀ p ∈ ps, PlainName p) → run ⟨m, [.arr els, .obj [] ARRAY_KEY]⟩ (restText ps) =
      some ⟨.done (listJson (els ++ ps.map fun p => entryJson p p.comm.bytes)), []⟩
  | [], m, els, hm, _ => by
    rw [List.map_nil, List.append_nil]
    exact run_footerText hm els
  | p :: ps, m, els, hm, hp => by
    rw [restText_cons, run_plain_entry hm (hp p List.mem_cons_self),
      run_restText _ (expects_modeAfter ps) fun q hq => hp q (List.mem_cons_of_mem p hq)]
    simp only [List.map_cons, List.append_assoc, List.singleton_append]

/-- **One JSON document**, when the names that are shown are plain. -/
theorem run_document {procs : List ProcMemInfo} (h : ∀ p ∈ shown procs, PlainName p) :
    parse (document procs) =
      some (listJson ((shown procs).map fun p => entryJson p p.comm.bytes)) := by
  have hrest := run_restText [] (expects_arrStart (shown procs)) h
  unfold parse document
  rw [List.append_assoc, run_append, run_headerText, Option.bind_some, ← restText.eq_1, hrest]
  rfl

/-! ## Names that are not plain -/

/-- The members of an object whose name has fewer than `n` bytes. -/
def Shorter (n : Nat) (ms : Members) : Prop :=
  ∃ v acc rest, ms = (PID, v) :: (NAME, .str acc) :: rest ∧ acc.length < n

/-- The value does not have this name. -/
def Misnamed (name : Bytes) (e : Json) : Prop := e.get? NAME ≠ some (.str name)

theorem Shorter.append {n : Nat} (ms : Members) (m : Bytes × Json) (h : Shorter n ms) :
    Shorter n (ms ++ [m]) := by
  obtain ⟨v, acc, rest, rfl, hlt⟩ := h
  exact ⟨v, acc, rest ++ [m], rfl, hlt⟩

theorem get?_name (v w : Json) (rest : Members) :
    (Json.obj ((PID, v) :: (NAME, w) :: rest)).get? NAME = some w := by
  simp [Json.get?, key_eq]

theorem Shorter.misnamed {name : Bytes} (ms : Members) (h : Shorter name.length ms) :
    Misnamed name (.obj ms) := by
  obtain ⟨v, acc, rest, rfl, hlt⟩ := h
  unfold Misnamed
  rw [get?_name]
  intro heq
  cases heq
  exact Nat.lt_irrefl _ hlt

/-- Behind a name that is not plain, the element that has been open is misnamed. -/
theorem run_misnamed {p : ProcMemInfo} (hp : ¬ PlainName p) {els : List Json} {v : Json}
    {separator : Bytes} {s s' : State}
    (hname : run ⟨.str false [], [.obj [(PID, v)] NAME, .arr els, .obj [] ARRAY_KEY]⟩ p.comm.bytes =
      some s)
    (hback : run s (back p separator) = some s') :
    Carries (Located ARRAY_KEY els.length (Shorter p.comm.bytes.length) (Misnamed p.comm.bytes))
      (Found ARRAY_KEY els.length (Misnamed p.comm.bytes)) s' := by
  have inv := Located.stackInvariant (K := ARRAY_KEY) (i := els.length)
    (Shorter.append (n := p.comm.bytes.length)) Shorter.misnamed
  rcases run_not_plain (Bool.eq_false_iff.mpr hp) hname with
    ⟨m, n, hm, hn, rfl⟩ | ⟨acc, rest, hlt, hrest⟩
  · -- the name has become shorter and its string is still open
    obtain ⟨acc, ms, k, st, hs⟩ := run_back_inv hback
    cases hs
    cases hm
    rw [List.length_nil, Nat.zero_add] at hn
    rw [run_back] at hback
    refine inv.run hback (.array _ _ List.getElem?_concat_length ?_)
    exact Shorter.misnamed _ ⟨v, acc, _, rfl, hn⟩
  · -- the string has ended inside the name
    rw [List.length_nil, Nat.zero_add] at hlt
    refine inv.run hback (inv.run hrest ?_)
    exact .element _ _ els rfl ⟨v, acc, [], rfl, hlt⟩

/-- **Every name is plain, or a process is misnamed** in the value of the text. -/
theorem plain_or_misnamed : ∀ {ps : List ProcMemInfo} {m : Mode} {els : List Json} {s : State}
    {v : Json}, Expects m ps → run ⟨m, [.arr els, .obj [] ARRAY_KEY]⟩ (restText ps) = some s →
    s.result = some v → (∀ p ∈ ps, PlainName p) ∨
      ∃ i p, ps[i]? = some p ∧ Found ARRAY_KEY (els.length + i) (Misnamed p.comm.bytes) v
  | [], m, els, s, v, _, _, _ => .inl fun p hp => absurd hp List.not_mem_nil
  | p :: ps, m, els, s, v, hm, hrun, hres => by
    rw [restText_cons] at hrun
    by_cases hp : PlainName p
    · rw [run_plain_entry hm hp] at hrun
      rcases plain_or_misnamed (expects_modeAfter ps) hrun hres with hall | ⟨i, q, hq, hfound⟩
      · left
        intro q hq
        rcases List.mem_cons.mp hq with rfl | hq
        · exact hp
        · exact hall q hq
      · right
        refine ⟨i + 1, q, by rw [List.getElem?_cons_succ, hq], ?_⟩
        rwa [List.length_append, List.length_singleton, Nat.add_assoc, Nat.add_comm 1] at hfound
    · right
      rw [run_append, run_front hm, Option.bind_some, run_append] at hrun
      obtain ⟨t, hname, hrun⟩ := Option.bind_eq_some_iff.mp hrun
      rw [run_append] at hrun
      obtain ⟨t', hback, hrun⟩ := Option.bind_eq_some_iff.mp hrun
      have inv := Located.stackInvariant (K := ARRAY_KEY) (i := els.length)
        (Shorter.append (n := p.comm.bytes.length)) Shorter.misnamed
      refine ⟨0, p, rfl, ?_⟩
      exact (inv.run hrun (run_misnamed hp hname hback)).of_result (fun h => h.ne_nil rfl) hres

/-! ## Decoding -/

/-- The value is an object with the numbers and the name of the process. -/
structure DecodesTo (p : ProcMemInfo) (e : Json) : Prop where
  pid : (e.get? PID).bind Json.int? = some p.pid.toInt
  name : e.get? NAME = some (.str p.comm.bytes)
  rss : (e.get? RSS).bind Json.int? = some (p.rss.toNat : Int)
  cpuTime : (e.get? CPU_TIME).bind Json.int? = some (p.cpuTime.toNat : Int)
  cpuPercentage : (e.get? CPU_PERCENTAGE).bind Json.int? = some (p.cpuPercentage.toNat : Int)

/-- The text is one JSON document whose array consists of one object for each of the first five
    processes, in their order. -/
def Decodes (procs : List ProcMemInfo) (text : Bytes) : Prop :=
  ∃ v els, parse text = some v ∧ v.get? ARRAY_KEY = some (.arr els) ∧
    List.Forall₂ DecodesTo (procs.take 5) els

theorem decodesTo_entryJson (p : ProcMemInfo) : DecodesTo p (entryJson p p.comm.bytes) := by
  have hnum : ∀ n : UInt64, (Json.num (decimal n.toNat)).int? = some (n.toNat : Int) := by
    intro n
    rw [← integer_natCast, int?_integer]
  have hpid : (entryJson p p.comm.bytes).get? PID = some (.num (integer p.pid.toInt)) := by
    simp [entryJson, Json.get?]
  have hrss : (entryJson p p.comm.bytes).get? RSS = some (.num (decimal p.rss.toNat)) := by
    simp [entryJson, measures, Json.get?, key_eq]
  have hcpuTime : (entryJson p p.comm.bytes).get? CPU_TIME =
      some (.num (decimal p.cpuTime.toNat)) := by
    simp [entryJson, measures, Json.get?, key_eq]
  have hcpuPercentage : (entryJson p p.comm.bytes).get? CPU_PERCENTAGE =
      some (.num (decimal p.cpuPercentage.toNat)) := by
    simp [entryJson, measures, Json.get?, key_eq]
  constructor
  · rw [hpid]
    exact int?_integer _
  · exact get?_name _ _ _
  · rw [hrss]
    exact hnum _
  · rw [hcpuTime]
    exact hnum _
  · rw [hcpuPercentage]
    exact hnum _

theorem get?_listJson (els : List Json) (ms : Members) :
    (Json.obj ((ARRAY_KEY, .arr els) :: ms)).get? ARRAY_KEY = some (.arr els) := by
  simp [Json.get?]

theorem decodes_of_plain {procs : List ProcMemInfo} (h : ∀ p ∈ shown procs, PlainName p) :
    Decodes procs (document procs) := by
  refine ⟨_, _, run_document h, get?_listJson _ [], ?_⟩
  rw [List.forall₂_map_right_iff]
  exact List.forall₂_same.mpr fun p _ => decodesTo_entryJson p

theorem plain_of_decodes {procs : List ProcMemInfo} (h : Decodes procs (document procs)) :
    ∀ p ∈ shown procs, PlainName p := by
  obtain ⟨v, els, hparse, harr, hall⟩ := h
  unfold parse document at hparse
  rw [List.append_assoc, run_append, run_headerText, Option.bind_some, ← restText.eq_1] at hparse
  obtain ⟨s, hrun, hres⟩ := Option.bind_eq_some_iff.mp hparse
  rcases plain_or_misnamed (expects_arrStart _) hrun hres with hplain | ⟨i, p, hp, hfound⟩
  · exact hplain
  · exfalso
    obtain ⟨els', e, ms, rfl, he, hmis⟩ := hfound
    rw [get?_listJson] at harr
    cases harr
    rw [List.length_nil, Nat.zero_add] at he
    obtain ⟨hlt, hget⟩ := List.getElem?_eq_some_iff.mp hp
    obtain ⟨hlt', hget'⟩ := List.getElem?_eq_some_iff.mp he
    have hentry := List.Forall₂.get hall hlt hlt'
    rw [List.get_eq_getElem, List.get_eq_getElem, hget'] at hentry
    exact hmis (hget ▸ hentry.name)

/-- Every call that succeeds delivers a text that decodes to the collected processes. -/
def DecodesProcs (m : Machine) (table : List Task) (size : UInt64) : Prop :=
  ∀ procs reply, Succeeds m table size procs → procesosInfo m table size = some reply →
    reply.ret = 0 → Decodes procs reply.delivered

theorem plain_of_decodesProcs {m : Machine} {table : List Task} {size : UInt64}
    {procs : List ProcMemInfo} (h : DecodesProcs m table size) (hs : Succeeds m table size procs)
    (hacc : (document procs).length ≤ m.accepts) : ∀ p ∈ shown procs, PlainName p := by
  have hcall := procesosInfo_fits hs.collected hs.memory hs.fits
  rw [copyToUser_all hacc] at hcall
  exact plain_of_decodes (h procs _ hs hcall rfl)

/-- **The list decodes to the processes** iff every name that a successful call lists is plain. -/
theorem decodesProcs_iff (m : Machine) (table : List Task) (size : UInt64) :
    DecodesProcs m table size ↔ ∀ procs, Succeeds m table size procs →
      (document procs).length ≤ m.accepts → ∀ p ∈ shown procs, PlainName p := by
  constructor
  · intro h procs hs hacc
    exact plain_of_decodesProcs h hs hacc
  · intro h procs reply hs hreply hret
    rw [procesosInfo_fits hs.collected hs.memory hs.fits] at hreply
    cases hreply
    have hacc : (document procs).length ≤ m.accepts := copyToUser_ret_zero hret
    rw [copyToUser_all hacc]
    exact decodes_of_plain (h procs hs hacc)

/-- A process with the name `a"b`. -/
theorem not_decodesProcs_quote :
    ¬ DecodesProcs Machine.ideal [⟨1, some 1, 0, 0, ⟨[97, 34, 98], by decide, by decide⟩⟩] 912 := by
  intro h
  have hs : Succeeds Machine.ideal
      [⟨1, some 1, 0, 0, ⟨[97, 34, 98], by decide, by decide⟩⟩] 912 _ :=
    ⟨rfl, by decide, lt_of_le_of_lt (document_length _) (by decide)⟩
  have hacc : ∀ procs, (document procs).length ≤ Machine.ideal.accepts := fun procs =>
    le_trans (document_length procs) (show 905 ≤ 912 by omega)
  have hplain := plain_of_decodesProcs h hs (hacc _) _ List.mem_cons_self
  revert hplain
  unfold PlainName
  decide

end UsacSyscalls.Procs
