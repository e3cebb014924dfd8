import UsacSyscalls.Procs.Decoding
import UsacSyscalls.Backend.SystemInfo

/-!
# The backend's reading of `procesos_info`

Reference model of `handle_procesos_info` of `Api/Backend/api_syscalls.c`: the text is parsed with
cJSON, and of every element of the array the items `pid`, `name`, `rss` and `cpu_time` are looked
up and dereferenced without a check.

* `handleProcesosInfo_complete` — an array whose elements have the four items gives the list.
* `handleProcesosInfo_broken` — one element without `cpu_time` is a NULL dereference.
-/

set_option autoImplicit false

namespace UsacSyscalls.Procs

open Lib.CString Lib.Json Backend

/-! ## cJSON -/

/-- A C string with its upper-case letters as lower-case ones. -/
def lower (k : Bytes) : Bytes := (cString k).map fun b => if 65 ≤ b ∧ b ≤ 90 then b + 32 else b

/-- The first member of an object with this key, as a C string and up to the case of letters. -/
def item? (v : Json) (k : Bytes) : Option Json :=
  match v with
  | .obj ms => (ms.find? fun m => lower m.1 = lower k).map Prod.snd
  | _ => none

/-- What `handle_procesos_info` uses of cJSON; `Double` is the type of `valuedouble`. -/
structure CJson (Double : Type) where
  /-- `cJSON_Parse`. -/
  parse : Bytes → Option Json
  /-- `cJSON_GetObjectItem`. -/
  getObjectItem : Json → Bytes → Option Json
  valuedouble : Json → Double
  /-- `valuestring`, which is NULL unless the item is a string. -/
  valuestring : Json → Option Bytes
  parse_eq : ∀ text, parse text = Lib.Json.parse text
  getObjectItem_eq : ∀ v k, getObjectItem v k = item? v k
  valuestring_eq : ∀ text, valuestring (.str text) = some (cString text)

/-! ## The handler -/

/-- An element of the list that is answered; a name that is NULL is left out. -/
structure ProcessEntry (Double : Type) where
  pid : Double
  name : Option Bytes
  rss : Double
  cpuTime : Double

inductive Outcome (Double : Type) where
  /-- NULL, which is answered as an internal server error. -/
  | null
  | list (entries : List (ProcessEntry Double))
  /-- A NULL pointer is dereferenced. -/
  | fault

variable {Double : Type}

/-- One iteration of `cJSON_ArrayForEach`; `none` is a NULL dereference. -/
def CJson.newProcess (cj : CJson Double) (process : Json) : Option (ProcessEntry Double) := do
  let pid ← cj.getObjectItem process PID
  let name ← cj.getObjectItem process NAME
  let rss ← cj.getObjectItem process RSS
  let cpuTime ← cj.getObjectItem process CPU_TIME
  some
    { pid := cj.valuedouble pid
      name := cj.valuestring name
      rss := cj.valuedouble rss
      cpuTime := cj.valuedouble cpuTime }

/-- `handle_procesos_info` on the reply of the system call. -/
def handleProcesosInfo (cj : CJson Double) (reply : Reply) : Outcome Double :=
  match getSystemInfo reply with
  | none => .null
  | some memoryInfoStr =>
    match cj.parse memoryInfoStr with
    | none => .null
    | some parsedJson =>
      match cj.getObjectItem parsedJson ARRAY_KEY with
      | some (.arr processArray) =>
        match processArray.mapM cj.newProcess with
        | none => .fault
        | some newProcessArray => .list newProcessArray
      | _ => .null

/-- NULL, or a list in which no name is missing. -/
def Outcome.Safe : Outcome Double → Prop
  | .null => True
  | .list entries => ∀ entry ∈ entries, entry.name ≠ none
  | .fault => False

/-! ## Lookups -/

theorem lower_length_le (k : Bytes) : (lower k).length ≤ k.length := by
  unfold lower
  rw [List.length_map]
  exact (List.takeWhile_sublist _).length_le

theorem item?_head {k : Bytes} (v : Json) (ms : Members) : item? (.obj ((k, v) :: ms)) k = some v := by
  simp [item?]

theorem item?_cons {k k' : Bytes} (h : lower k' ≠ lower k) (v : Json) (ms : Members) :
    item? (.obj ((k', v) :: ms)) k = item? (.obj ms) k := by
  simp [item?, h]

theorem item?_isSome {k : Bytes} {v : Json} {ms : Members} (h : (k, v) ∈ ms) :
    ∃ w, item? (.obj ms) k = some w := by
  have hsome : (ms.find? fun m => lower m.1 = lower k).isSome := by
    rw [List.find?_isSome]
    exact ⟨_, h, decide_eq_true rfl⟩
  obtain ⟨m, hm⟩ := Option.isSome_iff_exists.mp hsome
  exact ⟨m.2, by rw [item?, hm, Option.map_some]⟩

theorem item?_eq_none {k : Bytes} {ms : Members} (h : ∀ m ∈ ms, lower m.1 ≠ lower k) :
    item? (.obj ms) k = none := by
  have hnone : ms.find? (fun m => lower m.1 = lower k) = none := by
    rw [List.find?_eq_none]
    intro m hm
    simpa using h m hm
  rw [item?, hnone, Option.map_none]

/-! ## Complete and broken documents -/

/-- An element with the four items, of which the name is a string. -/
structure Complete (e : Json) : Prop where
  pid : ∃ v, item? e PID = some v
  name : ∃ text, item? e NAME = some (.str text)
  rss : ∃ v, item? e RSS = some v
  cpuTime : ∃ v, item? e CPU_TIME = some v

/-- The outermost object starts with an array of complete elements. -/
def CompleteDocument (v : Json) : Prop :=
  ∃ els ms, v = .obj ((ARRAY_KEY, .arr els) :: ms) ∧ ∀ e ∈ els, Complete e

/-- The outermost object starts with an array, and element `i` has no `cpu_time`. -/
def BrokenDocument (i : Nat) (v : Json) : Prop :=
  Found ARRAY_KEY i (fun e => item? e CPU_TIME = none) v

variable (cj : CJson Double)

theorem newProcess_complete {e : Json} (h : Complete e) :
    ∃ entry, cj.newProcess e = some entry ∧ entry.name ≠ none := by
  obtain ⟨pid, hpid⟩ := h.pid
  obtain ⟨text, hname⟩ := h.name
  obtain ⟨rss, hrss⟩ := h.rss
  obtain ⟨cpuTime, hcpuTime⟩ := h.cpuTime
  refine ⟨⟨cj.valuedouble pid, some (cString text), cj.valuedouble rss, cj.valuedouble cpuTime⟩, ?_, ?_⟩
  · simp [CJson.newProcess, cj.getObjectItem_eq, cj.valuestring_eq, hpid, hname, hrss, hcpuTime]
  · exact Option.some_ne_none _

theorem newProcess_broken {e : Json} (h : item? e CPU_TIME = none) : cj.newProcess e = none := by
  simp [CJson.newProcess, cj.getObjectItem_eq, h]

theorem mapM_newProcess : ∀ {els : List Json}, (∀ e ∈ els, Complete e) →
    ∃ entries, els.mapM cj.newProcess = some entries ∧ ∀ entry ∈ entries, entry.name ≠ none
  | [], _ => ⟨[], rfl, fun _ h => absurd h List.not_mem_nil⟩
  | e :: els, h => by
    obtain ⟨entry, hentry, hname⟩ := newProcess_complete cj (h e List.mem_cons_self)
    obtain ⟨entries, hentries, hnames⟩ :=
      mapM_newProcess fun e' he' => h e' (List.mem_cons_of_mem e he')
    refine ⟨entry :: entries, by simp [List.mapM_cons, hentry, hentries], ?_⟩
    intro x hx
    rcases List.mem_cons.mp hx with rfl | hx
    · exact hname
    · exact hnames x hx

theorem mapM_broken : ∀ {els : List Json} {i : Nat} {e : Json}, els[i]? = some e →
    cj.newProcess e = none → els.mapM cj.newProcess = none
  | e :: els, 0, _, he, h => by
    cases he
    simp [List.mapM_cons, h]
  | e :: els, i + 1, _, he, h => by
    rw [List.getElem?_cons_succ] at he
    simp [List.mapM_cons, mapM_broken he h]

variable {reply : Reply} {text : Bytes} {v : Json}

theorem handleProcesosInfo_failed (h : getSystemInfo reply = none) :
    (handleProcesosInfo cj reply).Safe := by
  unfold handleProcesosInfo
  rw [h]
  trivial

theorem handleProcesosInfo_not_json (h : getSystemInfo reply = some text)
    (hp : parse text = none) : (handleProcesosInfo cj reply).Safe := by
  unfold handleProcesosInfo
  rw [h]
  simp only [cj.parse_eq, hp]
  trivial

theorem handleProcesosInfo_complete (h : getSystemInfo reply = some text)
    (hp : parse text = some v) (hv : CompleteDocument v) : (handleProcesosInfo cj reply).Safe := by
  obtain ⟨els, ms, rfl, hels⟩ := hv
  obtain ⟨entries, hentries, hnames⟩ := mapM_newProcess cj hels
  unfold handleProcesosInfo
  rw [h]
  simp only [cj.parse_eq, hp, cj.getObjectItem_eq, item?_head, hentries]
  exact hnames

theorem handleProcesosInfo_broken {i : Nat} (h : getSystemInfo reply = some text)
    (hp : parse text = some v) (hv : BrokenDocument i v) : handleProcesosInfo cj reply = .fault := by
  obtain ⟨els, e, ms, rfl, he, hcpuTime⟩ := hv
  unfold handleProcesosInfo
  rw [h]
  simp only [cj.parse_eq, hp, cj.getObjectItem_eq, item?_head,
    mapM_broken cj he (newProcess_broken cj hcpuTime)]

end UsacSyscalls.Procs
