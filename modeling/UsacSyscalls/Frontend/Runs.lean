import UsacSyscalls.Frontend.Page
import UsacSyscalls.Procs.Survival

/-!
# What the page shows along a run

The page is watched over every interleaving of its timers, the server, the network and the kernel.

* `reach_shows` — the figures that are drawn together come from one reading of the kernel.
* `deliver_fresh` — a reply shows the kernel as it was at some time since the request.
* `reach_lines` — the line chart: one label for each point, every added point is RAM and swap in use
  in some readings, and points are only added, at most one for each request.
* `frozen` — a page without a server stays as it is.
-/

set_option autoImplicit false

namespace UsacSyscalls.Frontend

open Lib.Run Lib.Exchange Backend

variable {Double : Type} (cj : Procs.CJson Double) (number : UInt64 → Double) (n : Numbers Double)

/-! ## One reading for each panel -/

/-- What the page says about RAM. -/
structure RamPanel (Double : Type) where
  usedGB2 : Option (Option Double)
  ramUso : String
  ramLibre : String
  ramTotal : String
  chart : List (Option Double)

def Page.ram (page : Page Double) : RamPanel Double where
  usedGB2 := page.usedGB2
  ramUso := page.ramUso
  ramLibre := page.ramLibre
  ramTotal := page.ramTotal
  chart := page.myPieChart1.data

/-- The panel with the numbers of one reading. -/
def RamPanel.of (r : Stats.RamStats) : RamPanel Double where
  usedGB2 := some (some (number r.used))
  ramUso := "RAM EN USO: " ++ n.gb (some (number r.used)) ++ " GB"
  ramLibre := "RAM LIBRE: " ++ n.gb (some (number r.free)) ++ " GB"
  ramTotal := "CACHE: " ++ n.gb (some (number r.cache)) ++ " GB"
  chart := [some (number r.used), some (number r.free)]

/-- The two slices for the pages. -/
def pagesOf (m : Stats.MemoryPagesInfo) : List (Option Double) :=
  [some (number m.active), some (number m.inactive)]

/-- The two bars. -/
def faultsOf (p : Stats.PageFaultsInfo) : List (Option Double) :=
  [some (number p.majorFaults), some (number p.minorFaults)]

/-- Every panel is as it was loaded, or shows what the kernel was in one of the worlds. -/
structure Shows (past : List World) (page : Page Double) : Prop where
  ram : page.ram = (Page.init n).ram ∨
    ∃ w ∈ past, ∃ r, Stats.ramStats w.counters = some r ∧ page.ram = RamPanel.of number n r
  pages : page.myPieChart2.data = [some n.zero, some n.zero] ∨
    ∃ w ∈ past, page.myPieChart2.data = pagesOf number (Stats.memoryPagesInfo w.counters)
  faults : page.barrasFallo.data = [some n.zero, some n.zero] ∨
    ∃ w ∈ past, page.barrasFallo.data = faultsOf number (Stats.pageFaultsInfo w.counters)
  processes : page.processTable = [] ∨
    ∃ w ∈ past, (handleProcesosInfo cj w).handled = .json (.processes page.processTable)

variable {cj number n} {past : List World} {page : Page Double}

theorem Shows.later (h : Shows cj number n past page) (w : World) :
    Shows cj number n (past ++ [w]) page := by
  have hmem : ∀ {w'}, w' ∈ past → w' ∈ past ++ [w] := fun h => List.mem_append_left _ h
  refine ⟨h.ram.imp_right ?_, h.pages.imp_right ?_, h.faults.imp_right ?_,
    h.processes.imp_right ?_⟩
  all_goals
    rintro ⟨w', hw', hshown⟩
    exact ⟨w', hmem hw', hshown⟩

/-- The step lemma, with a case for each function. -/
theorem Shows.render (h : Shows cj number n past page) {w : World} (hw : w ∈ past) (f : Fetch) :
    Shows cj number n past (page.render cj number n f w) := by
  cases f with
  | fetchData =>
    cases hstats : Stats.ramStats w.counters with
    | none => simpa only [Page.render, hstats] using h
    | some r =>
      simp only [Page.render, hstats]
      exact ⟨.inr ⟨w, hw, r, hstats, rfl⟩, h.pages, h.faults, h.processes⟩
  | fetchData2 => exact ⟨h.ram, .inr ⟨w, hw, rfl⟩, h.faults, h.processes⟩
  | barrasFallo1 => exact ⟨h.ram, h.pages, .inr ⟨w, hw, rfl⟩, h.processes⟩
  | procesos =>
    rcases @render_procesos_cases _ cj number n w page with hsame | ⟨entries, hentries, hnew⟩
    · rwa [hsame]
    · rw [hnew]
      exact ⟨h.ram, h.pages, h.faults, .inr ⟨w, hw, hentries⟩⟩
  | lineas =>
    rcases @render_lineas_cases _ cj number n w page with hsame | ⟨x, -, hnew⟩
    · rwa [hsame]
    · rw [hnew]
      exact ⟨h.ram, h.pages, h.faults, h.processes⟩

variable {w₀ : World} {s s' : State World Fetch (HttpResponse Double) (Page Double)}

/-- **One reading for each panel**: however requests, replies, losses and the kernel interleave,
    all that is drawn about one matter are the numbers of one and the same reading. -/
theorem reach_shows (h : Reach (step (monitor cj number n)) (.init w₀ (Page.init n)) s) :
    Shows cj number n s.past s.client := by
  refine client_invariant h ⟨.inl rfl, .inl rfl, .inl rfl, .inl rfl⟩
    (fun past w page hP => hP.later w) ?_ (fun past f page hP => hP)
  intro past w f r page hw hserve hP
  show Shows cj number n past (page.receive n f (some r))
  rw [receive_serve hserve]
  exact hP.render hw f

/-- A page on a machine whose numbers are natural ones. -/
abbrev exactStep : Actor World Timer → State World Fetch (HttpResponse Nat) (Page Nat) →
    Option (State World Fetch (HttpResponse Nat) (Page Nat)) :=
  step (monitor CJson.exact UInt64.toNat Numbers.exact)

abbrev start : State World Fetch (HttpResponse Nat) (Page Nat) :=
  .init World.small (Page.init Numbers.exact)

/-- The first requests are answered and delivered out of order, around a change of the kernel. -/
def outOfOrder : List (Actor World Timer) :=
  [.event .startFetchingData, .answer 1, .answer 0, .deliver 0,
    .world { World.small with table := [] }, .answer 4, .deliver 4, .deliver 1, .lose 2]

theorem exec_outOfOrder :
    (exec exactStep outOfOrder start).map (fun s => (s.client.ramUso, s.client.lineasswap.labels)) =
      some ("RAM EN USO: 0.00 GB", ["Inicio", "Nuevo (1)"]) := by
  decide +kernel

theorem reach_shows_outOfOrder : ∃ s, exec exactStep outOfOrder start = some s ∧
    s.client.ramUso = "RAM EN USO: 0.00 GB" ∧
      Shows CJson.exact UInt64.toNat Numbers.exact s.past s.client := by
  obtain ⟨s, hs, hshown⟩ := Option.map_eq_some_iff.mp exec_outOfOrder
  exact ⟨s, hs, (Prod.mk.inj hshown).1, reach_shows (reach_of_exec _ hs)⟩

/-- **A reply is fresh**: it changes the page to what the kernel was at some time between the
    request and the delivery of the reply. -/
theorem deliver_fresh {i : Nat}
    (h : Reach (step (monitor cj number n)) (.init w₀ (Page.init n)) s)
    (hs : step (monitor cj number n) (.deliver i) s = some s') :
    ∃ c, s.calls[i]? = some c ∧ ∃ w ∈ s.past.drop c.sentAt,
      s'.client = s.client.render cj number n c.request w := by
  obtain ⟨f, t, r, hcall, rfl⟩ := deliver_cases hs
  obtain ⟨w, hw, hserve⟩ := reach_fresh h (List.mem_of_getElem? hcall) rfl
  exact ⟨_, hcall, w, hw, receive_serve hserve s.client⟩

theorem deliver_fresh_outOfOrder : ∃ s s', exec exactStep (outOfOrder.take 2) start = some s ∧
    exactStep (.deliver 1) s = some s' ∧ ∃ c, s.calls[1]? = some c ∧
      ∃ w ∈ s.past.drop c.sentAt,
        s'.client = s.client.render CJson.exact UInt64.toNat Numbers.exact c.request w := by
  have hrun : ((exec exactStep (outOfOrder.take 2) start).bind (exactStep (.deliver 1))).isSome =
      true := by decide +kernel
  obtain ⟨s', hs'⟩ := Option.isSome_iff_exists.mp hrun
  obtain ⟨s, hs, hdeliver⟩ := Option.bind_eq_some_iff.mp hs'
  exact ⟨s, s', hs, hdeliver, deliver_fresh (reach_of_exec _ hs) hdeliver⟩

/-! ## The line chart -/

/-- RAM in use and swap in use in readings so far. -/
def Point (number : UInt64 → Double) (past : List World) (p : Option Double × Option Double) :
    Prop :=
  (∃ w ∈ past, ∃ r, Stats.ramStats w.counters = some r ∧ p.1 = some (number r.used)) ∧
    ∃ w ∈ past, p.2 = some (number (Stats.swapInfo w.counters).used)

theorem Point.later {p : Option Double × Option Double} (h : Point number past p) (w : World) :
    Point number (past ++ [w]) p := by
  obtain ⟨⟨w₁, hw₁, h₁⟩, w₂, hw₂, h₂⟩ := h
  exact ⟨⟨w₁, List.mem_append_left _ hw₁, h₁⟩, w₂, List.mem_append_left _ hw₂, h₂⟩

/-- The chart that starts at zero and has these points. -/
def Lines.of (n : Numbers Double) (points : List (Option Double × Option Double)) :
    Lines Double where
  labels := "Inicio" :: (List.range' 1 points.length).map nuevo
  fisicaUsada := some n.zero :: points.map Prod.fst
  swapUsada := some n.zero :: points.map Prod.snd

theorem push_of (points : List (Option Double × Option Double)) (used swap : Option Double) :
    (Lines.of n points).push used swap = Lines.of n (points ++ [(used, swap)]) := by
  simp [Lines.of, Lines.push, List.range'_concat, Nat.add_comm]

/-- The invariant of the line chart. -/
structure Drawn (number : UInt64 → Double) (n : Numbers Double) (past : List World)
    (page : Page Double) : Prop where
  used : ∀ x, page.usedGB2 = some x →
    ∃ w ∈ past, ∃ r, Stats.ramStats w.counters = some r ∧ x = some (number r.used)
  lines : ∃ points, page.lineasswap = Lines.of n points ∧ ∀ p ∈ points, Point number past p

theorem Drawn.later (h : Drawn number n past page) (w : World) :
    Drawn number n (past ++ [w]) page := by
  obtain ⟨points, hlines, hpoints⟩ := h.lines
  refine ⟨fun x hx => ?_, points, hlines, fun p hp => (hpoints p hp).later w⟩
  obtain ⟨w', hw', hr⟩ := h.used x hx
  exact ⟨w', List.mem_append_left _ hw', hr⟩

theorem Drawn.render (h : Drawn number n past page) {w : World} (hw : w ∈ past) (f : Fetch) :
    Drawn number n past (page.render cj number n f w) := by
  cases f with
  | fetchData =>
    cases hstats : Stats.ramStats w.counters with
    | none => simpa only [Page.render, hstats] using h
    | some r =>
      simp only [Page.render, hstats]
      refine ⟨fun x hx => ⟨w, hw, r, hstats, ?_⟩, h.lines⟩
      exact (Option.some.inj hx).symm
  | fetchData2 => exact ⟨h.used, h.lines⟩
  | barrasFallo1 => exact ⟨h.used, h.lines⟩
  | procesos =>
    rcases @render_procesos_cases _ cj number n w page with hsame | ⟨entries, -, hnew⟩
    · rwa [hsame]
    · rw [hnew]
      exact ⟨h.used, h.lines⟩
  | lineas =>
    rcases @render_lineas_cases _ cj number n w page with hsame | ⟨x, hused, hnew⟩
    · rwa [hsame]
    · rw [hnew]
      obtain ⟨w', hw', r, hr, rfl⟩ := h.used x hused
      obtain ⟨points, hlines, hpoints⟩ := h.lines
      refine ⟨fun y hy => ⟨w', hw', r, hr, ?_⟩,
        points ++ [(some (number r.used), some (number (Stats.swapInfo w.counters).used))], ?_, ?_⟩
      · exact Option.some.inj (hy.symm.trans hused)
      · rw [hlines, push_of]
      · intro p hp
        rcases List.mem_append.mp hp with hold | hnew
        · exact hpoints p hold
        · rw [List.mem_singleton.mp hnew]
          exact ⟨⟨w', hw', r, hr, rfl⟩, w, hw, rfl⟩

theorem reach_drawn (h : Reach (step (monitor cj number n)) (.init w₀ (Page.init n)) s) :
    Drawn number n s.past s.client := by
  refine client_invariant h ⟨nofun, [], rfl, nofun⟩ (fun past w page hP => hP.later w) ?_
    (fun past f page hP => hP)
  intro past w f r page hw hserve hP
  show Drawn number n past (page.receive n f (some r))
  rw [receive_serve hserve]
  exact hP.render hw f

/-- The other chart is the first one with further points. -/
def Extends (n : Numbers Double) (page page' : Page Double) : Prop :=
  ∀ points, page.lineasswap = Lines.of n points →
    ∃ more, page'.lineasswap = Lines.of n (points ++ more)

theorem Extends.refl (page : Page Double) : Extends n page page :=
  fun points h => ⟨[], by rw [List.append_nil, h]⟩

theorem Extends.trans {page₁ page₂ page₃ : Page Double} (h₁ : Extends n page₁ page₂)
    (h₂ : Extends n page₂ page₃) : Extends n page₁ page₃ := by
  intro points hpoints
  obtain ⟨more₁, hmore₁⟩ := h₁ points hpoints
  obtain ⟨more₂, hmore₂⟩ := h₂ _ hmore₁
  exact ⟨more₁ ++ more₂, by rw [← List.append_assoc, hmore₂]⟩

/-- The chart stays as it is, or gets one point. -/
def Adds (l l' : Lines Double) : Prop := l' = l ∨ ∃ used swap, l' = l.push used swap

theorem lineas_adds (body : Body Double) (page : Page Double) :
    Adds page.lineasswap (lineas body page).lineasswap := by
  unfold lineas
  split
  · exact .inl rfl
  · split
    · exact .inl rfl
    · exact .inr ⟨_, _, rfl⟩

theorem update_lines {f : Fetch} (hf : f ≠ .lineas) (body : Body Double) (page : Page Double) :
    (page.update n f body).lineasswap = page.lineasswap := by
  cases f with
  | fetchData => simp only [Page.update, fetchData]; split <;> rfl
  | fetchData2 => simp only [Page.update, fetchData2]; split <;> rfl
  | barrasFallo1 => simp only [Page.update, barrasFallo1]; split <;> rfl
  | procesos => simp only [Page.update, procesos]; split <;> rfl
  | lineas => exact absurd rfl hf

/-- Only `lineas` draws lines, and it adds one point at most. -/
theorem receive_lines (f : Fetch) (r : Option (HttpResponse Double)) (page : Page Double) :
    (page.receive n f r).lineasswap = page.lineasswap ∨
      f = .lineas ∧ Adds page.lineasswap (page.receive n f r).lineasswap := by
  cases r with
  | none => exact .inl rfl
  | some response =>
    rw [Page.receive]
    split
    · by_cases hf : f = .lineas
      · subst hf
        exact .inr ⟨rfl, lineas_adds response.body page⟩
      · exact .inl (update_lines hf response.body page)
    · exact .inl rfl

theorem receive_extends (f : Fetch) (r : Option (HttpResponse Double)) (page : Page Double) :
    Extends n page (page.receive n f r) := by
  intro points hpoints
  rcases @receive_lines _ n f r page with hsame | ⟨-, hsame | ⟨used, swap, hpush⟩⟩
  · exact ⟨[], by rw [hsame, List.append_nil, hpoints]⟩
  · exact ⟨[], by rw [hsame, List.append_nil, hpoints]⟩
  · exact ⟨[(used, swap)], by rw [hpush, hpoints, push_of]⟩

theorem receive_labels (f : Fetch) (r : Option (HttpResponse Double)) (page : Page Double) :
    (page.receive n f r).lineasswap.labels.length ≤
      page.lineasswap.labels.length + if f == .lineas then 1 else 0 := by
  rcases @receive_lines _ n f r page with hsame | ⟨rfl, hsame | ⟨used, swap, hpush⟩⟩
  · rw [hsame]
    exact Nat.le_add_right _ _
  · rw [hsame]
    exact Nat.le_add_right _ _
  · rw [hpush]
    simp [Lines.push]

/-- **The line chart**: its points are labelled in order; every point that has been added to the
    first one, which the page is loaded with, is RAM in use and swap in use in readings of the
    kernel; at most one has been added for each call of `lineas` that is over; and none is ever
    changed or removed. -/
theorem reach_lines (h : Reach (step (monitor cj number n)) (.init w₀ (Page.init n)) s) :
    ∃ points, s.client.lineasswap = Lines.of n points ∧ (∀ p ∈ points, Point number s.past p) ∧
      points.length ≤ s.calls.countP (Call.settledOf (· == .lineas)) ∧
      ∀ s', Reach (step (monitor cj number n)) s s' →
        ∃ more, s'.client.lineasswap = Lines.of n (points ++ more) := by
  obtain ⟨points, hlines, hpoints⟩ := (reach_drawn h).lines
  refine ⟨points, hlines, hpoints, ?_, fun s' h' => ?_⟩
  · have hcount := @client_count _ _ _ _ _ _ _ (· == Fetch.lineas)
      (fun page : Page Double => page.lineasswap.labels.length) _ _ h receive_labels
    rw [hlines] at hcount
    simp only [Lines.of, Page.init, List.length_cons, List.length_map, List.length_range',
      List.length_nil] at hcount
    omega
  · exact client_related h' Extends.refl Extends.trans receive_extends points hlines

/-- One point, and one call of `lineas`. -/
theorem reach_lines_outOfOrder : ∃ s, exec exactStep outOfOrder start = some s ∧
    s.client.lineasswap.labels = ["Inicio", "Nuevo (1)"] ∧
      ∃ points, s.client.lineasswap = Lines.of Numbers.exact points ∧
        (∀ p ∈ points, Point UInt64.toNat s.past p) ∧
        points.length ≤ s.calls.countP (Call.settledOf (· == .lineas)) ∧
        ∀ s', Reach exactStep s s' →
          ∃ more, s'.client.lineasswap = Lines.of Numbers.exact (points ++ more) := by
  obtain ⟨s, hs, hshown⟩ := Option.map_eq_some_iff.mp exec_outOfOrder
  exact ⟨s, hs, (Prod.mk.inj hshown).2, reach_lines (reach_of_exec _ hs)⟩

/-! ## A server that runs, and one that has stopped -/

/-- A kernel whose answers the server survives. -/
structure Harmless (cj : Procs.CJson Double) (w : World) : Prop where
  /-- The RAM percentage is not a division by zero. -/
  counters : Stats.ramStats w.counters ≠ none
  /-- The system call does not divide by zero, and writes only into its buffer. -/
  call : Procs.procesosInfo w.machine w.table 912 ≠ none
  /-- The list of processes is read without a NULL pointer. -/
  list : Procs.Survives cj w.machine w.table

theorem handleProcesosInfo_survives {w : World} (h : Harmless cj w) :
    (handleProcesosInfo cj w).handled ≠ .fault := by
  obtain ⟨reply, hreply⟩ := Option.ne_none_iff_exists'.mp h.call
  have hsafe := h.list reply hreply
  rw [handleProcesosInfo_handled hreply]
  intro hfault
  cases houtcome : Procs.handleProcesosInfo cj reply.toReply with
  | null => rw [houtcome] at hfault; cases hfault
  | list entries => rw [houtcome] at hfault; cases hfault
  | fault => rw [houtcome] at hsafe; exact hsafe

theorem route_harmless {w : World} (h : Harmless cj w) (f : Fetch) :
    (route cj number w f.url).handled ≠ .fault := by
  cases f with
  | fetchData =>
    obtain ⟨r, hr⟩ := Option.ne_none_iff_exists'.mp h.counters
    exact fun hfault => by cases (handleRamStats_handled hr).symm.trans hfault
  | fetchData2 => exact fun hfault => by cases (handleMemoryPagesInfo_handled w).symm.trans hfault
  | barrasFallo1 => exact fun hfault => by cases (handlePageFaultsInfo_handled w).symm.trans hfault
  | procesos => exact handleProcesosInfo_survives h
  | lineas => exact fun hfault => by cases (handleSwapInfo_handled w).symm.trans hfault

/-- **Every request can be answered** as long as the kernel is harmless: the server runs, and any
    request that waits can be answered and shown, with the kernel as it is now. -/
theorem reach_served (h : Reach (step (monitor cj number n)) (.init w₀ (Page.init n)) s)
    (hpast : ∀ w ∈ s.past, Harmless cj w) :
    s.up = true ∧ ∀ i f t, s.calls[i]? = some ⟨f, t, .waiting⟩ →
      ∃ w s₁ s₂, s.past.getLast? = some w ∧ step (monitor cj number n) (.answer i) s = some s₁ ∧
        step (monitor cj number n) (.deliver i) s₁ = some s₂ ∧
        s₂.client = s.client.render cj number n f w := by
  have hserve : ∀ f w, Harmless cj w → (monitor cj number n).serve f w ≠ none :=
    fun f w hw => requestHandler_ne_none (route_harmless hw f)
  have hup := reach_up h hserve hpast
  refine ⟨hup, fun i f t hcall => ?_⟩
  obtain ⟨w, hlast⟩ := List.getLast?_isSome.mpr (reach_inv h).past |> Option.isSome_iff_exists.mp
  obtain ⟨r, hr⟩ := Option.ne_none_iff_exists'.mp (hserve f w (hpast w (List.mem_of_getLast? hlast)))
  obtain ⟨s₁, s₂, hanswer, hdeliver, hclient⟩ := answer_deliver hcall hlast hup hr
  exact ⟨w, s₁, s₂, hlast, hanswer, hdeliver, hclient.trans (receive_serve hr s.client)⟩

theorem survives_document {m : Procs.Machine} {table : List Procs.Task}
    {procs : List Procs.ProcMemInfo} (hprocs : Procs.obtenerInfoProcesos m table = some (.ok procs))
    (hmem : m.kmalloc 912 = true) (hacc : (Procs.document procs).length ≤ m.accepts)
    (hname : ¬ Procs.NameClosesEntry procs) : Procs.Survives cj m table := by
  intro reply hreply
  rw [Procs.procesosInfo_912 hprocs hmem, copyToUser_all hacc] at hreply
  cases hreply
  exact (Procs.safe_document_iff cj procs).mpr (.inr hname)

theorem harmless_small : Harmless CJson.exact World.small where
  counters := by decide +kernel
  call := by decide +kernel
  list := by
    have hmem : World.small.machine.kmalloc 912 = true := by
      simp [World.small, Procs.Machine.ideal, KMALLOC_MAX_SIZE]
    have hprocs : Procs.obtenerInfoProcesos World.small.machine World.small.table =
        some (.ok [Procs.procInfo World.small.machine (.ofPages 1 1) 1]) := rfl
    refine survives_document hprocs hmem (by decide +kernel) ?_
    rintro ⟨s, hs, hcloses⟩
    rw [Procs.run_headerText] at hs
    cases hs
    revert hcloses
    decide +kernel

/-- Five requests wait. -/
theorem reach_served_small : ∃ s, exec exactStep [.event .startFetchingData] start = some s ∧
    s.up = true ∧ ∀ i f t, s.calls[i]? = some ⟨f, t, .waiting⟩ →
      ∃ w s₁ s₂, s.past.getLast? = some w ∧ exactStep (.answer i) s = some s₁ ∧
        exactStep (.deliver i) s₁ = some s₂ ∧
        s₂.client = s.client.render CJson.exact UInt64.toNat Numbers.exact f w := by
  have hrun : exec exactStep [.event .startFetchingData] start =
      some (start.send Timer.startFetchingData.requests) := rfl
  refine ⟨_, hrun, reach_served (reach_of_exec _ hrun) fun w hw => ?_⟩
  rw [List.mem_singleton.mp hw]
  exact harmless_small

/-- **A page without a server**: once the server has stopped and no reply is under way, the page
    stays as it is, whatever its timers still send. -/
theorem frozen (h : Reach (step (monitor cj number n)) s s') (hdown : s.up = false)
    (hnone : ∀ c ∈ s.calls, c.status.isAnswered = false) : s'.client = s.client :=
  client_frozen h hdown hnone fun _ _ => rfl

/-- A machine that reports no unit: the division of `get_ram_stats` ends the server. -/
def noUnit : World :=
  { World.small with counters := ⟨⟨1000, 500, 10, 0, 100, 60⟩, fun _ => 200⟩ }

example : ∃ s,
    exec exactStep [.event .startFetchingData, .answer 0] (.init noUnit (Page.init .exact)) =
      some s ∧ s.up = false ∧ ∀ s', Reach exactStep s s' → s'.client = s.client := by
  have hrun : (exec exactStep [.event .startFetchingData, .answer 0]
      (.init noUnit (Page.init .exact))).map
        (fun s => (s.up, s.calls.all fun c => !c.status.isAnswered)) = some (false, true) := by
    decide +kernel
  obtain ⟨s, hs, hdown⟩ := Option.map_eq_some_iff.mp hrun
  obtain ⟨hup, hcalls⟩ := Prod.mk.inj hdown
  refine ⟨s, hs, hup, fun s' h => frozen h hup fun c hc => ?_⟩
  simpa using List.all_eq_true.mp hcalls c hc

end UsacSyscalls.Frontend
