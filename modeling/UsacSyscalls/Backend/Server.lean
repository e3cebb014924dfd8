import UsacSyscalls.Lib.Ledger
import UsacSyscalls.Procs.Survival
import UsacSyscalls.Stats.Decoders

/-!
# The HTTP server

Reference model of the handlers and of `request_handler` of `Api/Backend/api_syscalls.c`.  The
library behind it runs on a single polling thread, so that requests are handled one after another;
each makes at most one system call.  A handler keeps the trail of what it creates and disposes of:
a cJSON object or a text is acquired when it is created, and released when it is deleted or handed
over to an object that contains it.

* `requestHandler` — the response, or `none` when the server process dies.
* `replay_requests` — over any sequence of requests everything is disposed of once, but for one
  text for each process list that is JSON: the output of `cJSON_Print` for the debug message.
-/

set_option autoImplicit false

namespace UsacSyscalls.Backend

open Lib.Ledger Procs

/-! ## What a request meets -/

/-- The kernel and the stack when a request is handled. -/
structure World where
  counters : Stats.Counters
  machine : Machine
  table : List Task
  /-- The prior contents of the local arrays of the system calls. -/
  ramBuffer : Stats.Buffer 256
  buffer : Stats.Buffer 128
  /-- The prior contents of the local variables of the handlers. -/
  ramVars : Stats.RamNumbers
  vars : Nat → UInt64

/-- What a request creates. -/
inductive Object where
  /-- The object that `get_system_info` returns. -/
  | systemInfo
  /-- The object with the numbers. -/
  | stats
  | parsedJson
  /-- The text of `cJSON_Print(parsed_json)`. -/
  | printedJson
  | newProcessArray
  | newProcess
  | responseJson
  | jsonString
  | response
  deriving DecidableEq, Repr

/-! ## The responses -/

section Server

variable {Double : Type}

inductive Body (Double : Type) where
  | empty
  /-- Numbers under their names, in an object under its name. -/
  | stats (name : String) (numbers : List (String × Double))
  | processes (entries : List (ProcessEntry Double))
  | error (text : String)

structure Request where
  method : String
  url : String
  deriving DecidableEq, Repr

structure HttpResponse (Double : Type) where
  status : Nat
  headers : List (String × String)
  body : Body Double

def MHD_HTTP_OK : Nat := 200
def MHD_HTTP_INTERNAL_SERVER_ERROR : Nat := 500

def ALLOW_ORIGIN : String × String := ("Access-Control-Allow-Origin", "*")

/-- The response with the text of a JSON object. -/
def HttpResponse.json (body : Body Double) : HttpResponse Double where
  status := MHD_HTTP_OK
  headers := [("Content-Type", "application/json"), ALLOW_ORIGIN,
    ("Access-Control-Allow-Methods", "GET, OPTIONS"),
    ("Access-Control-Allow-Headers", "Content-Type")]
  body := body

def HttpResponse.serverError : HttpResponse Double where
  status := MHD_HTTP_INTERNAL_SERVER_ERROR
  headers := [ALLOW_ORIGIN]
  body := .empty

/-- What a handler returns. -/
inductive Handled (Double : Type) where
  | null
  | json (body : Body Double)
  /-- The process dies, in the system call or at a NULL pointer. -/
  | fault

/-- A handler's result and its trail. -/
structure Ran (Double : Type) where
  handled : Handled Double
  trail : List (Op Object)

/-! ## The handlers -/

/-- What the four handlers of the statistics share; the system call returns `none` when it
    divides by zero, `decode` the numbers under their names. -/
def handleStats (reply : Option Reply)
    (decode : Reply → Option (String × List (String × Double))) : Ran Double :=
  match reply with
  | none => ⟨.fault, []⟩
  | some reply =>
    match decode reply with
    | none => ⟨.null, []⟩
    | some (name, numbers) =>
      ⟨.json (.stats name numbers),
        [.acquire .systemInfo, .acquire .stats, .acquire .responseJson, .release .stats,
          .release .systemInfo]⟩

variable (cj : CJson Double) (number : UInt64 → Double)

def handleRamStats (w : World) : Ran Double :=
  handleStats (Stats.getRamStats w.counters w.ramBuffer SYSTEM_INFO_SIZE) fun reply =>
    (Stats.handleRamStats reply w.ramVars).map fun n =>
      ("ram_stats", [("total", number n.total), ("used", number n.used),
        ("free", number n.freeMemory), ("cache", number n.cache),
        ("percentage_used", number n.percentageUsed)])

/-- The object of a handler with these numbers. -/
def named (r : Stats.Response) : String × List (String × Double) :=
  (r.name, r.numbers.map fun n => (n.1, number n.2))

def handleSwapInfo (w : World) : Ran Double :=
  handleStats (Stats.getSwapInfo w.counters w.buffer SYSTEM_INFO_SIZE) fun reply =>
    (Stats.handleSwapInfo reply (w.vars 0) (w.vars 1) (w.vars 2)).map (named number)

def handlePageFaultsInfo (w : World) : Ran Double :=
  handleStats (Stats.getPageFaultsInfo w.counters w.buffer SYSTEM_INFO_SIZE) fun reply =>
    (Stats.handlePageFaultsInfo reply (w.vars 0) (w.vars 1)).map (named number)

def handleMemoryPagesInfo (w : World) : Ran Double :=
  handleStats (Stats.getMemoryPagesInfo w.counters w.buffer SYSTEM_INFO_SIZE) fun reply =>
    (Stats.handleMemoryPagesInfo reply (w.vars 0) (w.vars 1)).map (named number)

def handleProcesosInfo (w : World) : Ran Double :=
  match procesosInfo w.machine w.table 912 with
  | none => ⟨.fault, []⟩
  | some reply =>
    match getSystemInfo reply.toReply with
    | none => ⟨.null, []⟩
    | some memoryInfoStr =>
      match cj.parse memoryInfoStr with
      | none => ⟨.null, [.acquire .systemInfo, .release .systemInfo]⟩
      | some parsedJson =>
        -- the text of the debug message is never freed
        let start := [.acquire .systemInfo, .acquire .parsedJson, .acquire .printedJson]
        match cj.getObjectItem parsedJson ARRAY_KEY with
        | some (.arr processArray) =>
          match processArray.mapM cj.newProcess with
          | none => ⟨.fault, start ++ [.acquire .newProcessArray]⟩
          | some newProcessArray =>
            ⟨.json (.processes newProcessArray),
              start ++ [.acquire .newProcessArray] ++
                newProcessArray.flatMap (fun _ => [.acquire .newProcess, .release .newProcess]) ++
                [.acquire .responseJson, .release .newProcessArray, .release .parsedJson,
                  .release .systemInfo]⟩
        | _ => ⟨.null, start ++ [.release .parsedJson, .release .systemInfo]⟩

/-- The handler of a URL; without one the answer is an error object. -/
def route (w : World) (url : String) : Ran Double :=
  if url = "/ram_stats" then handleRamStats number w
  else if url = "/swap_info" then handleSwapInfo number w
  else if url = "/page_faults_info" then handlePageFaultsInfo number w
  else if url = "/memory_pages_info" then handleMemoryPagesInfo number w
  else if url = "/procesos_info" then handleProcesosInfo cj w
  else ⟨.json (.error "Invalid endpoint"), [.acquire .responseJson]⟩

/-- `request_handler`: the response, or `none` when the process dies, and the trail. -/
def requestHandler (q : Request) (w : World) :
    Option (HttpResponse Double) × List (Op Object) :=
  if q.method = "OPTIONS" then
    (some
      { status := MHD_HTTP_OK
        headers := [ALLOW_ORIGIN, ("Access-Control-Allow-Methods", "GET, OPTIONS"),
          ("Access-Control-Allow-Headers", "Content-Type")]
        body := .empty },
      [.acquire .response, .release .response])
  else
    let ran := route cj number w q.url
    match ran.handled with
    | .fault => (none, ran.trail)
    | .json body =>
      (some (.json body),
        ran.trail ++ [.acquire .jsonString, .acquire .response, .release .jsonString,
          .release .responseJson, .release .response])
    | .null =>
      (some .serverError, ran.trail ++ [.acquire .response, .release .response])

/-! ## What the handlers answer -/

section Answers

variable {cj number}

theorem requestHandler_json {q : Request} {w : World} {body : Body Double}
    (hmethod : q.method ≠ "OPTIONS") (h : (route cj number w q.url).handled = .json body) :
    (requestHandler cj number q w).1 = some (.json body) := by
  unfold requestHandler
  rw [if_neg hmethod]
  simp only [h]

theorem requestHandler_fault {q : Request} {w : World} (hmethod : q.method ≠ "OPTIONS")
    (h : (route cj number w q.url).handled = .fault) : (requestHandler cj number q w).1 = none := by
  unfold requestHandler
  rw [if_neg hmethod]
  simp only [h]

theorem requestHandler_null {q : Request} {w : World} (hmethod : q.method ≠ "OPTIONS")
    (h : (route cj number w q.url).handled = .null) :
    (requestHandler cj number q w).1 = some .serverError := by
  unfold requestHandler
  rw [if_neg hmethod]
  simp only [h]

/-- The process dies only in a handler. -/
theorem requestHandler_ne_none {q : Request} {w : World}
    (h : (route cj number w q.url).handled ≠ .fault) :
    (requestHandler cj number q w).1 ≠ none := by
  unfold requestHandler
  split
  · exact Option.some_ne_none _
  · cases hhandled : (route cj number w q.url).handled with
    | null => simp only [hhandled]; exact Option.some_ne_none _
    | json body => simp only [hhandled]; exact Option.some_ne_none _
    | fault => exact absurd hhandled h

/-- The numbers of the kernel, but for the percentage. -/
theorem handleRamStats_handled {w : World} {r : Stats.RamStats}
    (h : Stats.ramStats w.counters = some r) :
    (handleRamStats number w).handled = .json (.stats "ram_stats"
      [("total", number r.total), ("used", number r.used), ("free", number r.free),
        ("cache", number r.cache), ("percentage_used", number w.ramVars.percentageUsed)]) := by
  have hreply := Stats.handleRamStats_reply r w.ramBuffer w.ramVars
  unfold Stats.ramReply at hreply
  simp only [handleRamStats, handleStats, Stats.getRamStats, h, Option.map_some, hreply]

theorem handleRamStats_fault {w : World} (h : Stats.ramStats w.counters = none) :
    (handleRamStats number w).handled = .fault := by
  simp only [handleRamStats, handleStats, Stats.getRamStats, h, Option.map_none]

theorem handleSwapInfo_handled (w : World) :
    (handleSwapInfo number w).handled = .json (.stats "swap_info"
      [("total", number (Stats.swapInfo w.counters).total),
        ("used", number (Stats.swapInfo w.counters).used),
        ("free", number (Stats.swapInfo w.counters).free)]) := by
  simp only [handleSwapInfo, handleStats, Stats.getSwapInfo, Stats.handleSwapInfo_reply,
    Option.map_some, named, List.map_cons, List.map_nil]

theorem handlePageFaultsInfo_handled (w : World) :
    (handlePageFaultsInfo number w).handled = .json (.stats "page_faults_info"
      [("minor_faults", number (Stats.pageFaultsInfo w.counters).minorFaults),
        ("major_faults", number (Stats.pageFaultsInfo w.counters).majorFaults)]) := by
  simp only [handlePageFaultsInfo, handleStats, Stats.getPageFaultsInfo,
    Stats.handlePageFaultsInfo_reply, Option.map_some, named, List.map_cons, List.map_nil]

theorem handleMemoryPagesInfo_handled (w : World) :
    (handleMemoryPagesInfo number w).handled = .json (.stats "memory_pages_info"
      [("active", number (Stats.memoryPagesInfo w.counters).active),
        ("inactive", number (Stats.memoryPagesInfo w.counters).inactive)]) := by
  simp only [handleMemoryPagesInfo, handleStats, Stats.getMemoryPagesInfo,
    Stats.handleMemoryPagesInfo_reply, Option.map_some, named, List.map_cons, List.map_nil]

/-- What `request_handler` makes of a list of processes. -/
def Handled.ofOutcome : Outcome Double → Handled Double
  | .null => .null
  | .list entries => .json (.processes entries)
  | .fault => .fault

theorem handleProcesosInfo_handled {w : World} {reply : ProcReply}
    (h : procesosInfo w.machine w.table 912 = some reply) :
    (handleProcesosInfo cj w).handled =
      .ofOutcome (Procs.handleProcesosInfo cj reply.toReply) := by
  unfold handleProcesosInfo Procs.handleProcesosInfo
  simp only [h]
  cases hinfo : getSystemInfo reply.toReply with
  | none => rfl
  | some text =>
    cases hparse : cj.parse text with
    | none => simp only [hparse, Handled.ofOutcome]
    | some v =>
      simp only [hparse]
      rcases hitem : cj.getObjectItem v ARRAY_KEY with _ | item
      · rfl
      · cases item with
        | arr els =>
          cases hentries : els.mapM cj.newProcess with
          | none => simp only [hentries, Handled.ofOutcome]
          | some entries => simp only [hentries, Handled.ofOutcome]
        | _ => rfl

theorem handled_ofOutcome_json {o : Outcome Double} {body : Body Double}
    (h : Handled.ofOutcome o = .json body) : ∃ entries, body = .processes entries := by
  cases o with
  | null => cases h
  | list entries => cases h; exact ⟨entries, rfl⟩
  | fault => cases h

/-- An answer to `/procesos_info` is a list of processes. -/
theorem handleProcesosInfo_json {w : World} {body : Body Double}
    (h : (handleProcesosInfo cj w).handled = .json body) :
    ∃ entries, body = .processes entries := by
  cases hcall : procesosInfo w.machine w.table 912 with
  | none =>
    unfold handleProcesosInfo at h
    simp only [hcall] at h
    cases h
  | some reply =>
    rw [handleProcesosInfo_handled hcall] at h
    exact handled_ofOutcome_json h

end Answers

/-! ## What a request leaves behind -/

/-- Whether the system call answers with a text that is JSON. -/
def listParses (w : World) : Bool :=
  match procesosInfo w.machine w.table 912 with
  | none => false
  | some reply => ((getSystemInfo reply.toReply).bind cj.parse).isSome

/-- Whether a request leaves the text of the debug message behind. -/
def leaks (q : Request) (w : World) : Bool :=
  q.method != "OPTIONS" && q.url == "/procesos_info" && listParses cj w

/-- What is held after a handler has returned, besides what was held before. -/
def leftBy (handled : Handled Double) (leaked : Bool) (held : List Object) : List Object :=
  let held := if leaked then .printedJson :: held else held
  match handled with
  | .json _ => .responseJson :: held
  | _ => held

theorem replay_handleStats (reply : Option Reply)
    (decode : Reply → Option (String × List (String × Double))) (held : List Object) :
    replay (handleStats reply decode).trail held =
      some (leftBy (handleStats reply decode).handled false held) := by
  unfold handleStats
  cases reply with
  | none => rfl
  | some reply =>
    cases hdecode : decode reply with
    | none =>
      simp only [hdecode]
      rfl
    | some named =>
      simp [hdecode, replay, leftBy]

theorem replay_newProcesses (entries : List (ProcessEntry Double)) (held : List Object) :
    replay (entries.flatMap fun _ => [.acquire .newProcess, .release .newProcess]) held =
      some held := by
  have h := @replay_flatMap Object _ _ (fun _ => [.acquire .newProcess, .release .newProcess])
    (fun _ => false) .newProcess entries (fun _ _ held => by simp [replay]) held
  simpa using h

theorem replay_handleProcesosInfo (w : World) (held : List Object)
    (hup : (handleProcesosInfo cj w).handled ≠ .fault) :
    replay (handleProcesosInfo cj w).trail held =
      some (leftBy (handleProcesosInfo cj w).handled (listParses cj w) held) := by
  unfold handleProcesosInfo at hup ⊢
  unfold listParses
  cases hcall : procesosInfo w.machine w.table 912 with
  | none =>
    simp only [hcall] at hup
    exact absurd rfl hup
  | some reply =>
    simp only [hcall] at hup ⊢
    cases hinfo : getSystemInfo reply.toReply with
    | none => rfl
    | some text =>
      simp only [hinfo, Option.bind_some] at hup ⊢
      cases hparse : cj.parse text with
      | none => simp [replay, leftBy]
      | some v =>
        simp only [hparse, Option.isSome_some] at hup ⊢
        split at hup
        · rename_i els harray
          cases hentries : els.mapM cj.newProcess with
          | none =>
            simp only [hentries] at hup
            exact absurd rfl hup
          | some entries =>
            simp only
            rw [replay_append, replay_append]
            simp [replay, replay_newProcesses, leftBy]
        · simp [replay, leftBy]

theorem replay_route (w : World) (url : String) (held : List Object)
    (hup : (route cj number w url).handled ≠ .fault) :
    replay (route cj number w url).trail held =
      some (leftBy (route cj number w url).handled
        (url == "/procesos_info" && listParses cj w) held) := by
  unfold route at hup ⊢
  by_cases hlist : url = "/procesos_info"
  · subst hlist
    simp only [String.reduceEq, if_false, if_true] at hup ⊢
    rw [replay_handleProcesosInfo cj w held hup]
    rfl
  · have hother : (url == "/procesos_info" && listParses cj w) = false := by simp [hlist]
    rw [hother]
    split
    · exact replay_handleStats _ _ held
    · split
      · exact replay_handleStats _ _ held
      · split
        · exact replay_handleStats _ _ held
        · split
          · exact replay_handleStats _ _ held
          · rfl

/-- **What a request leaves behind**: the text of the debug message, or nothing. -/
theorem replay_request (q : Request) (w : World) (held : List Object)
    (hup : (requestHandler cj number q w).1.isSome = true) :
    replay (requestHandler cj number q w).2 held =
      some (if leaks cj q w then .printedJson :: held else held) := by
  unfold requestHandler at hup ⊢
  by_cases hmethod : q.method = "OPTIONS"
  · rw [if_pos hmethod]
    simp [replay, leaks, hmethod]
  · rw [if_neg hmethod] at hup ⊢
    have hroute := replay_route cj number w q.url held
    have hleaks : leaks cj q w = (q.url == "/procesos_info" && listParses cj w) := by
      rw [leaks, bne_iff_ne.mpr hmethod, Bool.true_and]
    cases hran : (route cj number w q.url).handled with
    | fault =>
      simp only [hran] at hup
      cases hup
    | json body =>
      rw [hran] at hroute
      simp only [hran, replay_append, hroute (by simp), Option.bind_some, hleaks]
      simp [replay, leftBy]
    | null =>
      rw [hran] at hroute
      simp only [hran, replay_append, hroute (by simp), Option.bind_some, hleaks]
      simp [replay, leftBy]

/-- **What the server never gives back**: along any sequence of requests that it survives,
    everything it creates is disposed of once, but for one text for each process list that it
    parsed. -/
theorem replay_requests (history : List (Request × World))
    (hup : ∀ e ∈ history, (requestHandler cj number e.1 e.2).1.isSome = true) :
    replay (history.flatMap fun e => (requestHandler cj number e.1 e.2).2) [] =
      some (List.replicate (history.countP fun e => leaks cj e.1 e.2) .printedJson) := by
  have h := replay_flatMap (fun e he held => replay_request cj number e.1 e.2 held (hup e he)) []
  rwa [List.append_nil] at h

end Server

/-! ## Three requests -/

/-- A cJSON for documents in which every number is a natural one. -/
def CJson.exact : CJson Nat where
  parse := CJson.byText.parse
  getObjectItem := CJson.byText.getObjectItem
  valuedouble v := Lib.Decimal.value (CJson.byText.valuedouble v)
  valuestring := CJson.byText.valuestring
  parse_eq := CJson.byText.parse_eq
  getObjectItem_eq := CJson.byText.getObjectItem_eq
  valuestring_eq := CJson.byText.valuestring_eq

/-- A machine with 1000 pages, half of them free, and one process. -/
def World.small : World where
  counters := ⟨⟨1000, 500, 10, 4096, 100, 60⟩, fun _ => 200⟩
  machine := .ideal
  table := [.ofPages 1 1]
  ramBuffer := Stats.filled 256 0
  buffer := Stats.filled 128 0
  ramVars := ⟨0, 0, 0, 0, 0⟩
  vars _ := 0

/-- Two paths that the page asks for, and one that it does not. -/
def poll : List (Request × World) :=
  ["/swap_info", "/procesos_info", "/"].map fun url => (⟨"GET", url⟩, .small)

/-- One poll leaves one text behind. -/
theorem replay_requests_poll :
    replay (poll.flatMap fun e => (requestHandler CJson.exact UInt64.toNat e.1 e.2).2) [] =
      some [.printedJson] := by
  have hup : ∀ e ∈ poll, (requestHandler CJson.exact UInt64.toNat e.1 e.2).1.isSome = true := by
    decide +kernel
  have hleaks : poll.countP (fun e => leaks CJson.exact e.1 e.2) = 1 := by decide +kernel
  have h := replay_requests CJson.exact UInt64.toNat poll hup
  rwa [hleaks] at h

end UsacSyscalls.Backend
