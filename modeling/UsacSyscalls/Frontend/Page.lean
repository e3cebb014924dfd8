import UsacSyscalls.Lib.Exchange
import UsacSyscalls.Backend.Server

/-!
# The page

Reference model of `Api/Frontend/updateChart.js` on `frontend.html`, and of the system that the
page and the HTTP server make up: the page sends requests from two timers, the server answers one
at a time from the kernel as it then is, and replies may overtake one another or be lost.

The numbers of JavaScript are a parameter; `none` stands for `undefined`.

* `receive_serve` — along the whole path, from the kernel's print over the backend's scan to the
  page, a reply shows the numbers of the kernel it was answered from.
-/

set_option autoImplicit false

namespace UsacSyscalls.Frontend

open Lib.Exchange Backend

variable {Double : Type}

/-! ## What the page shows -/

/-- `data` of a chart with one data set. -/
structure Chart (Double : Type) where
  labels : List String
  data : List (Option Double)
  backgroundColor : List String
  borderColor : List String

/-- `lineasswap.data`, a chart with two data sets. -/
structure Lines (Double : Type) where
  labels : List String
  /-- The first data set, `Física Usada`. -/
  fisicaUsada : List (Option Double)
  /-- The second data set, `Swap Usada`. -/
  swapUsada : List (Option Double)

structure Page (Double : Type) where
  /-- The global variable, which is declared by its first assignment. -/
  usedGB2 : Option (Option Double)
  ramUso : String
  ramLibre : String
  ramTotal : String
  myPieChart1 : Chart Double
  myPieChart2 : Chart Double
  barrasFallo : Chart Double
  /-- The rows of `processTable`. -/
  processTable : List (Procs.ProcessEntry Double)
  lineasswap : Lines Double

/-- What the page uses of JavaScript's numbers. -/
structure Numbers (Double : Type) where
  zero : Double
  /-- `(x / 1073741824).toFixed(2)`. -/
  gb : Option Double → String

def GREEN : String := "rgb(44, 194, 149)"
def BLUE : String := "rgb(0, 123, 129)"

/-- The page when it is loaded. -/
def Page.init (n : Numbers Double) : Page Double where
  usedGB2 := none
  ramUso := "RAM EN USO: 0 GB"
  ramLibre := "RAM LIBRE: 0 GB"
  ramTotal := "CACHE: 0 GB"
  myPieChart1 :=
    { labels := ["Used Memory", "Free Memory"]
      data := [some n.zero, some n.zero]
      backgroundColor := ["rgb(255, 123, 129)", BLUE]
      borderColor := ["rgba(255, 99, 132, 1)", "rgba(75, 192, 192, 1)"] }
  myPieChart2 :=
    { labels := ["Paginas Activas ", "Paginas Inactiva"]
      data := [some n.zero, some n.zero]
      backgroundColor := [GREEN, BLUE]
      borderColor := [GREEN, BLUE] }
  barrasFallo :=
    { labels := ["Fallos Mayores", "Fallos menores"]
      data := [some n.zero, some n.zero]
      backgroundColor := [GREEN, BLUE]
      borderColor := [GREEN, BLUE] }
  processTable := []
  lineasswap := ⟨["Inicio"], [some n.zero], [some n.zero]⟩

/-! ## The functions that fetch -/

inductive Fetch where
  | fetchData
  | fetchData2
  | barrasFallo1
  | procesos
  | lineas
  deriving DecidableEq, Repr

def Fetch.url : Fetch → String
  | .fetchData => "/ram_stats"
  | .fetchData2 => "/memory_pages_info"
  | .barrasFallo1 => "/page_faults_info"
  | .procesos => "/procesos_info"
  | .lineas => "/swap_info"

def Fetch.request (f : Fetch) : Request := ⟨"GET", f.url⟩

/-- `response.ok` of a response that the browser lets the page read, from another origin. -/
def ok (response : HttpResponse Double) : Bool :=
  200 ≤ response.status && response.status < 300 && response.headers.contains ALLOW_ORIGIN

/-- The object under a name in the JSON of the body; a body without JSON has none. -/
def object? (body : Body Double) (name : String) : Option (List (String × Double)) :=
  match body with
  | .stats name' numbers => if name' = name then some numbers else none
  | _ => none

/-- `updateChart`, `updateChart2` and `updateChart3`, with the colours that all three are given. -/
def updateChart (labels : List String) (data : List (Option Double)) : Chart Double where
  labels := labels
  data := data
  backgroundColor := [GREEN, BLUE]
  borderColor := [GREEN, BLUE]

def fetchData (n : Numbers Double) (body : Body Double) (page : Page Double) : Page Double :=
  match object? body "ram_stats" with
  | none => page
  | some ramStats =>
    { page with
      usedGB2 := some (ramStats.lookup "used")
      ramUso := "RAM EN USO: " ++ n.gb (ramStats.lookup "used") ++ " GB"
      ramLibre := "RAM LIBRE: " ++ n.gb (ramStats.lookup "free") ++ " GB"
      ramTotal := "CACHE: " ++ n.gb (ramStats.lookup "cache") ++ " GB"
      myPieChart1 := updateChart ["Used Memory", "Free Memory"]
        [ramStats.lookup "used", ramStats.lookup "free"] }

def fetchData2 (body : Body Double) (page : Page Double) : Page Double :=
  match object? body "memory_pages_info" with
  | none => page
  | some ramStats =>
    { page with
      myPieChart2 := updateChart ["Paginas Activas", "Paginas inactivas"]
        [ramStats.lookup "active", ramStats.lookup "inactive"] }

def barrasFallo1 (body : Body Double) (page : Page Double) : Page Double :=
  match object? body "page_faults_info" with
  | none => page
  | some ramStats =>
    { page with
      barrasFallo := updateChart ["Fallos Mayores", "Fallos menores"]
        [ramStats.lookup "major_faults", ramStats.lookup "minor_faults"] }

/-- `Procesos` with `updateTable`. -/
def procesos (body : Body Double) (page : Page Double) : Page Double :=
  match body with
  | .processes procInfo => { page with processTable := procInfo }
  | _ => page

/-- The label of a new point. -/
def nuevo (i : Nat) : String := "Nuevo (" ++ toString i ++ ")"

def Lines.push (l : Lines Double) (usedGB2 used : Option Double) : Lines Double where
  labels := l.labels ++ [nuevo l.labels.length]
  fisicaUsada := l.fisicaUsada ++ [usedGB2]
  swapUsada := l.swapUsada ++ [used]

def lineas (body : Body Double) (page : Page Double) : Page Double :=
  match object? body "swap_info" with
  | none => page
  | some swapInfo =>
    match page.usedGB2 with
    -- a ReferenceError, before anything is drawn
    | none => page
    | some usedGB2 =>
      { page with lineasswap := page.lineasswap.push usedGB2 (swapInfo.lookup "used") }

/-- What the functions do with the JSON of a response. -/
def Page.update (n : Numbers Double) (f : Fetch) (body : Body Double) (page : Page Double) :
    Page Double :=
  match f with
  | .fetchData => fetchData n body page
  | .fetchData2 => fetchData2 body page
  | .barrasFallo1 => barrasFallo1 body page
  | .procesos => procesos body page
  | .lineas => lineas body page

/-- What a function does when its `fetch` is over; an error is only written to the console. -/
def Page.receive (n : Numbers Double) (f : Fetch) (r : Option (HttpResponse Double))
    (page : Page Double) : Page Double :=
  match r with
  | none => page
  | some response => if ok response then page.update n f response.body else page

/-! ## The page and the server -/

/-- The two timers: `setTimeout(startFetchingData, 5000)`, whose first call is `window.onload`,
    and `setInterval(lineas, 5000)`. -/
inductive Timer where
  | startFetchingData
  | interval
  deriving DecidableEq, Repr

def Timer.requests : Timer → List Fetch
  | .startFetchingData => [.fetchData, .fetchData2, .barrasFallo1, .procesos, .lineas]
  | .interval => [.lineas]

section System

variable (cj : Procs.CJson Double) (number : UInt64 → Double) (n : Numbers Double)

/-- The page and the server of `main`, which stops when its process dies. -/
def monitor : Protocol World Fetch (HttpResponse Double) (Page Double) Timer where
  serve f w := (requestHandler cj number f.request w).1
  requests := Timer.requests
  receive := Page.receive n

/-! ## What a reply shows -/

/-- What the functions are for: to show the numbers of the kernel, and the list that the backend
    makes of the processes. -/
def Page.render (f : Fetch) (w : World) (page : Page Double) : Page Double :=
  match f with
  | .fetchData =>
    match Stats.ramStats w.counters with
    | none => page
    | some r =>
      { page with
        usedGB2 := some (some (number r.used))
        ramUso := "RAM EN USO: " ++ n.gb (some (number r.used)) ++ " GB"
        ramLibre := "RAM LIBRE: " ++ n.gb (some (number r.free)) ++ " GB"
        ramTotal := "CACHE: " ++ n.gb (some (number r.cache)) ++ " GB"
        myPieChart1 := updateChart ["Used Memory", "Free Memory"]
          [some (number r.used), some (number r.free)] }
  | .fetchData2 =>
    { page with
      myPieChart2 := updateChart ["Paginas Activas", "Paginas inactivas"]
        [some (number (Stats.memoryPagesInfo w.counters).active),
          some (number (Stats.memoryPagesInfo w.counters).inactive)] }
  | .barrasFallo1 =>
    { page with
      barrasFallo := updateChart ["Fallos Mayores", "Fallos menores"]
        [some (number (Stats.pageFaultsInfo w.counters).majorFaults),
          some (number (Stats.pageFaultsInfo w.counters).minorFaults)] }
  | .procesos =>
    match (handleProcesosInfo cj w).handled with
    | .json (.processes entries) => { page with processTable := entries }
    | _ => page
  | .lineas =>
    match page.usedGB2 with
    | none => page
    | some usedGB2 =>
      { page with
        lineasswap :=
          page.lineasswap.push usedGB2 (some (number (Stats.swapInfo w.counters).used)) }

variable {cj number n}

theorem render_procesos_cases (w : World) (page : Page Double) :
    page.render cj number n .procesos w = page ∨
      ∃ entries, (handleProcesosInfo cj w).handled = .json (.processes entries) ∧
        page.render cj number n .procesos w = { page with processTable := entries } := by
  cases hhandled : (handleProcesosInfo cj w).handled with
  | json body =>
    obtain ⟨entries, rfl⟩ := handleProcesosInfo_json hhandled
    exact .inr ⟨entries, rfl, by simp only [Page.render, hhandled]⟩
  | null => exact .inl (by simp only [Page.render, hhandled])
  | fault => exact .inl (by simp only [Page.render, hhandled])

theorem render_lineas_cases (w : World) (page : Page Double) :
    page.render cj number n .lineas w = page ∨
      ∃ x, page.usedGB2 = some x ∧
        page.render cj number n .lineas w =
          { page with
            lineasswap :=
              page.lineasswap.push x (some (number (Stats.swapInfo w.counters).used)) } := by
  cases hused : page.usedGB2 with
  | none => exact .inl (by simp only [Page.render, hused])
  | some x => exact .inr ⟨x, rfl, by simp only [Page.render, hused]⟩

theorem request_method (f : Fetch) : f.request.method ≠ "OPTIONS" := by
  show "GET" ≠ "OPTIONS"
  decide

theorem receive_json (f : Fetch) (body : Body Double) (page : Page Double) :
    page.receive n f (some (.json body)) = page.update n f body := rfl

theorem object?_stats (name : String) (numbers : List (String × Double)) :
    object? (.stats name numbers) name = some numbers := if_pos rfl

section Replies

variable {f : Fetch} {w : World} {r : HttpResponse Double}

/-- The reply of a handler that returns an object. -/
theorem serve_json {body : Body Double} (hserve : (monitor cj number n).serve f w = some r)
    (h : (route cj number w f.url).handled = .json body) : r = .json body := by
  have hr := requestHandler_json (request_method f) h
  exact Option.some.inj (hserve.symm.trans hr)

theorem serve_fault (h : (route cj number w f.url).handled = .fault) :
    (monitor cj number n).serve f w = none := requestHandler_fault (request_method f) h

/-- An internal server error changes nothing. -/
theorem receive_null (h : (route cj number w f.url).handled = .null)
    (hserve : (monitor cj number n).serve f w = some r) (page : Page Double) :
    page.receive n f (some r) = page := by
  have hok := requestHandler_null (request_method f) h
  cases hserve.symm.trans hok
  rfl

theorem receive_fetchData (h : (monitor cj number n).serve .fetchData w = some r)
    (page : Page Double) :
    page.receive n .fetchData (some r) = page.render cj number n .fetchData w := by
  cases hstats : Stats.ramStats w.counters with
  | none =>
    have hfault := @serve_fault _ cj number n .fetchData w (handleRamStats_fault hstats)
    rw [hfault] at h
    cases h
  | some stats =>
    rw [serve_json h (handleRamStats_handled hstats), receive_json]
    simp only [Page.update, fetchData, object?_stats, Page.render, hstats]
    rfl

theorem receive_procesos (h : (monitor cj number n).serve .procesos w = some r)
    (page : Page Double) :
    page.receive n .procesos (some r) = page.render cj number n .procesos w := by
  have hroute : route cj number w Fetch.procesos.url = handleProcesosInfo cj w := rfl
  cases hhandled : (handleProcesosInfo cj w).handled with
  | json body =>
    obtain ⟨entries, rfl⟩ := handleProcesosInfo_json hhandled
    rw [serve_json h (hroute ▸ hhandled), receive_json]
    simp only [Page.render, hhandled]
    rfl
  | null =>
    rw [receive_null (hroute ▸ hhandled) h page]
    simp only [Page.render, hhandled]
  | fault =>
    rw [serve_fault (hroute ▸ hhandled)] at h
    cases h

/-- **From the kernel to the screen**: a reply shows the numbers of the kernel that it was answered
    from. -/
theorem receive_serve (h : (monitor cj number n).serve f w = some r) (page : Page Double) :
    page.receive n f (some r) = page.render cj number n f w := by
  cases f with
  | fetchData => exact receive_fetchData h page
  | fetchData2 =>
    rw [serve_json h (handleMemoryPagesInfo_handled w), receive_json]
    rfl
  | barrasFallo1 =>
    rw [serve_json h (handlePageFaultsInfo_handled w), receive_json]
    rfl
  | procesos => exact receive_procesos h page
  | lineas =>
    rw [serve_json h (handleSwapInfo_handled w), receive_json]
    rfl

end Replies

end System

/-! ## Numbers -/

/-- The numbers of a page that is only sent natural ones. -/
def Numbers.exact : Numbers Nat where
  zero := 0
  gb
    | none => "NaN"
    | some x =>
      -- the nearest number of hundredths
      let hundredths := (x * 200 + 2 ^ 30) / 2 ^ 31
      toString (hundredths / 100) ++ "." ++ toString (hundredths / 10 % 10) ++
        toString (hundredths % 10)

/-- 512 MiB in use. -/
example : Numbers.exact.gb (some (512 * 2 ^ 20)) = "0.50" := by decide

end UsacSyscalls.Frontend
