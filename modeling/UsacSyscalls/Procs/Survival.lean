import UsacSyscalls.Procs.InName

/-!
# Whether the backend survives a process list

* `walk` — reading the entries one after the other: as long as no name closes its own entry, every
  element that is complete has the four items; the first one that is closed by a name has no
  `cpu_time`, as the rest of the name has to lead back into a string.
* `survives_iff` — the handler survives exactly the lists whose text is not JSON or in which no
  name closes its entry.
-/

set_option autoImplicit false

namespace UsacSyscalls.Procs

open Lib.CString Lib.Decimal Lib.Format Lib.Json Backend

/-- While the entries of the processes are read from `s`, a name closes the entry that it is
    printed in: inside it, fewer than three containers are open. -/
def closesEntry : State → List ProcMemInfo → Bool
  | _, [] => false
  | s, p :: ps =>
    (match run s (front p) with
      | none => false
      | some t => dips 3 t p.comm.bytes) ||
    (match run s (processText p (separatorOf ps)) with
      | none => false
      | some t => closesEntry t ps)

/-- A name in the document closes the entry that it is printed in. -/
def NameClosesEntry (procs : List ProcMemInfo) : Prop :=
  ∃ s, run .start headerText = some s ∧ closesEntry s (shown procs) = true

/-! ## Between two entries -/

/-- The open containers in front of an entry: no entry is open, or one without `cpu_time` that a
    name has opened a container in. -/
inductive Between (els : List Json) : List Frame → Prop where
  | closed : Between els (base els)
  | open (st : List Frame) (ms : Members) (k : Bytes) (hms : Named ms) (hk : ¬ Mentions ms k) :
      Between els (st ++ .obj ms k :: base els)

/-- At the opening quotation mark of a name. -/
theorem Between.inEntry {els : List Json} {st : List Frame} (h : Between els st) (v : Json) :
    InEntry els 0 ⟨.str false [], .obj [(PID, v)] NAME :: st⟩ := by
  cases h with
  | closed => exact .name _ _ v (.str [])
  | «open» st ms k hms hk =>
    exact .above _ _ st ms k hms (fun h => Bool.noConfusion h) fun h => absurd h hk

theorem lower_pid_ne_name : lower PID ≠ lower NAME := by
  rw [key_eq.1, key_eq.2.1]
  decide

/-- An entry that is closed by its own back is complete. -/
theorem complete_back {ms : Members} (p : ProcMemInfo) (h : Named (ms ++ measures p)) :
    Complete (.obj (ms ++ measures p)) := by
  have hrss : (RSS, Json.num (decimal p.rss.toNat)) ∈ ms ++ measures p :=
    List.mem_append_right ms (by simp [measures])
  have hcpuTime : (CPU_TIME, Json.num (decimal p.cpuTime.toNat)) ∈ ms ++ measures p :=
    List.mem_append_right ms (by simp [measures])
  refine ⟨?_, ?_, item?_isSome hrss, item?_isSome hcpuTime⟩
  · obtain ⟨v, text, rest, heq⟩ := h
    rw [heq]
    exact ⟨v, item?_head v _⟩
  · obtain ⟨v, text, rest, heq⟩ := h
    rw [heq]
    exact ⟨text, (item?_cons lower_pid_ne_name v _).trans (item?_head _ _)⟩

theorem Named.append_list {ms : Members} (h : Named ms) (ms' : Members) : Named (ms ++ ms') := by
  obtain ⟨v, text, rest, rfl⟩ := h
  exact ⟨v, text, rest ++ ms', rfl⟩

/-- What may be expected in front of the processes `ps`, also behind an entry in an object. -/
def MayExpect (m : Mode) (ps : List ProcMemInfo) : Prop :=
  if ps = [] then m = .next ∨ m = .arrStart else m.wantsValue ∨ m = .key

theorem mayExpect_modeAfter (ps : List ProcMemInfo) : MayExpect (modeAfter ps) ps := by
  unfold MayExpect modeAfter
  split
  · exact .inl rfl
  · exact .inl (.inl rfl)

/-- The separator behind an entry that was put into the container `f`. -/
theorem run_separator_any (e : Json) (f : Frame) (st : List Frame) (ps : List ProcMemInfo) :
    ∃ m, run (deliver e (f :: st)) (separatorOf ps ++ [10]) =
        some ⟨m, (deliver e (f :: st)).stack⟩ ∧ MayExpect m ps := by
  unfold separatorOf MayExpect
  split
  · cases f <;> exact ⟨.next, rfl, .inl rfl⟩
  · rw [bytes_separator.2]
    cases f with
    | arr els => exact ⟨.value, rfl, .inl (.inl rfl)⟩
    | obj ms k => exact ⟨.key, rfl, .inr rfl⟩

/-- Behind an entry inside an open entry, the open one still is open and without `cpu_time`. -/
theorem run_separator_open {els : List Json} {ms : Members} {k : Bytes} (hms : Named ms)
    (hk : ¬ Mentions ms k) (e : Json) (st : List Frame) (ps : List ProcMemInfo) :
    ∃ m st', run (deliver e (st ++ .obj ms k :: base els)) (separatorOf ps ++ [10]) =
        some ⟨m, st'⟩ ∧ MayExpect m ps ∧ Between els st' := by
  cases st with
  | nil =>
    obtain ⟨m, hrun, hm⟩ := run_separator_any e (.obj ms k) (base els) ps
    refine ⟨m, _, hrun, hm, .open [] _ _ (hms.append _) fun hmention => ?_⟩
    exact hk (mentions_of_append hmention)
  | cons f st =>
    obtain ⟨m, hrun, hm⟩ := run_separator_any e f (st ++ .obj ms k :: base els) ps
    refine ⟨m, _, hrun, hm, ?_⟩
    cases f with
    | arr els' => exact .open (.arr (els' ++ [e]) :: st) ms k hms hk
    | obj ms' k' => exact .open (.obj (ms' ++ [(k', e)]) [] :: st) ms k hms hk

/-- The footer only ends a document in which the array and the outermost object are open. -/
theorem footerText_inv {m : Mode} {st : List Frame} {s : State} {v : Json}
    (hm : m = .next ∨ m = .arrStart) (h : run ⟨m, st⟩ footerText = some s)
    (hres : s.result = some v) : st.length = 2 := by
  rw [footerText_eq] at h
  match st with
  | [] => rcases hm with rfl | rfl <;> cases h
  | [.arr els] => rcases hm with rfl | rfl <;> cases h
  | .obj ms k :: st => rcases hm with rfl | rfl <;> cases h
  | [_, _] => rfl
  | .arr els :: .arr els' :: st => rcases hm with rfl | rfl <;> cases h
  | .arr els :: .obj ms k :: f :: st =>
    cases f <;> rcases hm with rfl | rfl <;> cases h <;> cases hres

/-- A closed entry without `cpu_time` stays in the document. -/
theorem broken_of_closed {els : List Json} {ms : Members} (text : Bytes) {s : State} {v : Json}
    (hms : ¬ HasCpuTime ms) (h : run (deliver (.obj ms) (base els)) text = some s)
    (hres : s.result = some v) : BrokenDocument els.length v := by
  have inv : StackInvariant
      (Located ARRAY_KEY els.length (fun _ => False) fun e => item? e CPU_TIME = none)
      (BrokenDocument els.length) :=
    Located.stackInvariant (fun _ _ h => h) fun _ h => h.elim
  refine (inv.run h ?_).of_result (fun h => h.ne_nil rfl) hres
  refine .array _ (.obj ms) List.getElem?_concat_length (item?_eq_none fun m hm hk => ?_)
  exact hms ⟨m, hm, hk⟩

/-- The rest of a name that has closed its entry leads back into a string. -/
theorem not_hasCpuTime_of_back {els : List Json} {ms : Members} {rest : Bytes} {st : List Frame}
    {acc : Bytes} (hprice : HasCpuTime ms → rest.length ≤ 1)
    (h : run (deliver (.obj ms) (base els)) rest = some ⟨.str false acc, st⟩) :
    ¬ HasCpuTime ms := by
  intro hhas
  have hlen := hprice hhas
  match rest with
  | [] => cases h
  | [b] =>
    rw [run_cons] at h
    obtain ⟨t, hstep, hrun⟩ := Option.bind_eq_some_iff.mp h
    cases hrun
    rcases step_cases hstep with h | ⟨_, _, hnum, -⟩
    · generalize ht : State.mk (.str false acc) st = t at h
      cases h with
      | openString _ _ hv => rcases hv with hv | hv <;> cases hv
      | inString _ _ _ _ _ _ hs => cases hs
      | openScalar _ _ _ hv => rcases hv with hv | hv <;> cases hv
      | inScalar _ _ _ hs => cases hs
      | _ => cases ht
    · cases hnum
  | _ :: _ :: _ => simp at hlen

/-! ## All entries -/

/-- Behind a name that has left its entry open: the back closes the entry, which is then complete,
    or a container inside it. -/
theorem inEntry_back {els : List Json} {t t' : State} {p : ProcMemInfo} {ps : List ProcMemInfo}
    (hin : InEntry els p.comm.bytes.length t) (hels : ∀ e ∈ els, Complete e)
    (hback : run t (back p (separatorOf ps)) = some t') :
    ∃ m els' st, t' = ⟨m, st⟩ ∧ MayExpect m ps ∧ Between els' st ∧ ∀ e ∈ els', Complete e := by
  obtain ⟨acc, ms', k', st', rfl⟩ := run_back_inv hback
  rw [run_back] at hback
  -- the entry itself is closed
  have hclosed : st' = base els → Named (ms' ++ (k', .str acc) :: measures p) →
      ∃ m els' st, t' = ⟨m, st⟩ ∧ MayExpect m ps ∧ Between els' st ∧ ∀ e ∈ els', Complete e := by
    rintro rfl hnamed
    rw [base, run_separator] at hback
    cases hback
    refine ⟨_, _, _, rfl, mayExpect_modeAfter ps, .closed, fun e he => ?_⟩
    rcases List.mem_append.mp he with he | he
    · exact hels e he
    · rw [List.mem_singleton.mp he, List.append_cons]
      rw [List.append_cons] at hnamed
      exact complete_back p hnamed
  generalize hstate : State.mk (.str false acc) (.obj ms' k' :: st') = t at hin
  cases hin with
  | name _ n v hm =>
    cases hstate
    exact hclosed rfl ⟨v, acc, _, rfl⟩
  | entry _ ms k hms _ _ =>
    cases hstate
    exact hclosed rfl (hms.append_list _)
  | above _ f st ms k hms _ hprice =>
    cases hstate
    -- fifteen bytes do not pay for `cpu_time` and a string in another object
    have hk : ¬ Mentions ms k := fun hmention => by
      have := hprice hmention
      have : ahead (.obj ms' k') (.str false acc) = 2 := rfl
      have : p.comm.bytes.length < 16 := p.comm.length_lt
      omega
    obtain ⟨m, st'', hsep, hm, hopen⟩ :=
      run_separator_open hms hk (.obj (ms' ++ (k', .str acc) :: measures p)) st ps
    rw [hsep] at hback
    cases hback
    exact ⟨m, els, st'', rfl, hm, hopen, hels⟩

/-- **One entry**: its name leaves it open and every entry closed so far is complete, or its name
    closes it and it has no `cpu_time`. -/
theorem entry_cases {els : List Json} {st : List Frame} {v : Json} {t' : State} {p : ProcMemInfo}
    {ps : List ProcMemInfo} (hst : Between els st) (hels : ∀ e ∈ els, Complete e)
    (h : run ⟨.str false [], .obj [(PID, v)] NAME :: st⟩
      (p.comm.bytes ++ back p (separatorOf ps)) = some t') :
    (dips 3 ⟨.str false [], .obj [(PID, v)] NAME :: st⟩ p.comm.bytes = false ∧
      ∃ m els' st', t' = ⟨m, st'⟩ ∧ MayExpect m ps ∧ Between els' st' ∧ ∀ e ∈ els', Complete e) ∨
    (dips 3 ⟨.str false [], .obj [(PID, v)] NAME :: st⟩ p.comm.bytes = true ∧
      ∃ ms rest, ¬ HasCpuTime ms ∧ run (deliver (.obj ms) (base els)) rest = some t') := by
  rw [run_append] at h
  obtain ⟨t, hname, hback⟩ := Option.bind_eq_some_iff.mp h
  rcases inEntry_run (hst.inEntry v) hname with ⟨hdips, hin⟩ | ⟨hdips, ms, rest, hprice, hrest⟩
  · rw [Nat.zero_add] at hin
    exact .inl ⟨hdips, inEntry_back hin hels hback⟩
  · refine .inr ⟨hdips, ms, rest ++ back p (separatorOf ps), ?_, ?_⟩
    · obtain ⟨acc, ms', k', st', rfl⟩ := run_back_inv hback
      refine not_hasCpuTime_of_back (fun hhas => ?_) hrest
      have := hprice hhas
      have : p.comm.bytes.length < 16 := p.comm.length_lt
      omega
    · rw [run_append, hrest, Option.bind_some, hback]

/-- **Reading the entries**: either no name closes its entry and the document is complete, or one
    does and the document is broken. -/
theorem walk : ∀ {ps : List ProcMemInfo} {m : Mode} {els : List Json} {st : List Frame}
    {s : State} {v : Json}, MayExpect m ps → Between els st → (∀ e ∈ els, Complete e) →
    run ⟨m, st⟩ (restText ps) = some s → s.result = some v →
    (closesEntry ⟨m, st⟩ ps = false ∧ CompleteDocument v) ∨
      (closesEntry ⟨m, st⟩ ps = true ∧ ∃ i, BrokenDocument i v)
  | [], m, els, st, s, v, hm, hst, hels, h, hres => by
    left
    have hlen := footerText_inv hm h hres
    refine ⟨rfl, ?_⟩
    cases hst with
    | closed =>
      rw [restText, entriesText, List.nil_append, base, run_footerText hm] at h
      cases h
      cases hres
      exact ⟨els, [], rfl, hels⟩
    | «open» st ms k hms hk =>
      rw [List.length_append, base] at hlen
      simp at hlen
  | p :: ps, m, els, st, s, v, hm, hst, hels, h, hres => by
    rw [restText_cons] at h
    rcases hm with hm | rfl
    swap
    · rw [run_append, run_front_key] at h
      cases h
    have hfront := run_front hm st p
    rw [run_append, hfront, Option.bind_some, ← List.append_assoc, run_append] at h
    obtain ⟨t', hentry, hps⟩ := Option.bind_eq_some_iff.mp h
    have htext : run ⟨m, st⟩ (processText p (separatorOf ps)) = some t' := by
      rw [processText_eq, run_append, hfront, Option.bind_some, hentry]
    simp only [closesEntry, hfront, htext]
    rcases entry_cases hst hels hentry with
      ⟨hdips, m', els', st', rfl, hm', hst', hels'⟩ | ⟨hdips, ms, rest, hms, hrest⟩
    · rw [hdips, Bool.false_or]
      exact walk hm' hst' hels' hps hres
    · rw [hdips, Bool.true_or]
      refine .inr ⟨rfl, els.length, broken_of_closed (rest ++ restText ps) hms ?_ hres⟩
      rw [run_append, hrest, Option.bind_some, hps]

/-! ## The handler -/

theorem run_document_entries (procs : List ProcMemInfo) :
    run .start (document procs) =
      run ⟨.arrStart, base []⟩ (restText (shown procs)) := by
  unfold document
  rw [List.append_assoc, run_append, run_headerText, Option.bind_some]
  rfl

/-- A document that is JSON is broken if a name closes its entry, and complete if none does. -/
theorem document_cases {procs : List ProcMemInfo} {v : Json} (h : parse (document procs) = some v) :
    (¬ NameClosesEntry procs ∧ CompleteDocument v) ∨
      (NameClosesEntry procs ∧ ∃ i, BrokenDocument i v) := by
  unfold parse at h
  rw [run_document_entries] at h
  obtain ⟨s, hrun, hres⟩ := Option.bind_eq_some_iff.mp h
  have hiff : NameClosesEntry procs ↔ closesEntry ⟨.arrStart, base []⟩ (shown procs) = true := by
    unfold NameClosesEntry
    rw [run_headerText]
    simp [base]
  have hmode : MayExpect .arrStart (shown procs) := by
    unfold MayExpect
    split
    · exact .inr rfl
    · exact .inl (.inr rfl)
  rw [hiff]
  rcases walk hmode .closed (fun e he => absurd he List.not_mem_nil) hrun hres with
    ⟨hcloses, hv⟩ | ⟨hcloses, hv⟩
  · exact .inl ⟨by rw [hcloses]; exact Bool.false_ne_true, hv⟩
  · exact .inr ⟨hcloses, hv⟩

/-- The handler survives whatever the system call answers. -/
def Survives {Double : Type} (cj : CJson Double) (m : Machine) (table : List Task) : Prop :=
  ∀ reply, procesosInfo m table 912 = some reply → (handleProcesosInfo cj reply.toReply).Safe

section

variable {Double : Type} (cj : CJson Double) {m : Machine} {table : List Task}
  {procs : List ProcMemInfo}

theorem getSystemInfo_document (procs : List ProcMemInfo) :
    getSystemInfo ⟨0, document procs⟩ = some (document procs) := by
  refine getSystemInfo_eq rfl (zero_not_mem_document procs) (.inr ⟨rfl, ?_⟩)
  have := document_length procs
  unfold SYSTEM_INFO_SIZE
  omega

/-- The handler on a document. -/
theorem safe_document_iff (procs : List ProcMemInfo) :
    (handleProcesosInfo cj ⟨0, document procs⟩).Safe ↔
      parse (document procs) = none ∨ ¬ NameClosesEntry procs := by
  have htext := getSystemInfo_document procs
  cases hp : parse (document procs) with
  | none => exact ⟨fun _ => .inl rfl, fun _ => handleProcesosInfo_not_json cj htext hp⟩
  | some v =>
    rcases document_cases hp with ⟨hcloses, hv⟩ | ⟨hcloses, i, hv⟩
    · exact ⟨fun _ => .inr hcloses, fun _ => handleProcesosInfo_complete cj htext hp hv⟩
    · rw [handleProcesosInfo_broken cj htext hp hv]
      constructor
      · intro h
        exact h.elim
      · rintro (h | h)
        · cases h
        · exact absurd hcloses h

/-- A call for 912 bytes that collects the processes and gets its buffer delivers the document. -/
theorem procesosInfo_912 (hprocs : obtenerInfoProcesos m table = some (.ok procs))
    (hmem : m.kmalloc 912 = true) :
    procesosInfo m table 912 = some
      { copyToUser m.accepts (document procs) with listed := List.range (min 5 procs.length) } := by
  have hlen := document_length procs
  have hsize : outputSize 912 = 912 := by decide
  refine procesosInfo_fits hprocs ?_ ?_
  · rw [hsize]
    exact hmem
  · rw [hsize]
    omega

theorem harmless_of_survives (h : Survives cj m table)
    (hprocs : obtenerInfoProcesos m table = some (.ok procs)) (hmem : m.kmalloc 912 = true)
    (hacc : (document procs).length ≤ m.accepts) :
    parse (document procs) = none ∨ ¬ NameClosesEntry procs := by
  have hcall := procesosInfo_912 hprocs hmem
  rw [copyToUser_all hacc] at hcall
  exact (safe_document_iff cj procs).mp (h _ hcall)

/-- **The backend survives a process list** iff the text is not JSON, or no name in it closes the
    entry that it is printed in. -/
theorem survives_iff (cj : CJson Double) (m : Machine) (table : List Task) :
    Survives cj m table ↔ ∀ procs, obtenerInfoProcesos m table = some (.ok procs) →
      m.kmalloc 912 = true → (document procs).length ≤ m.accepts →
        parse (document procs) = none ∨ ¬ NameClosesEntry procs := by
  constructor
  · intro h procs hprocs hmem hacc
    exact harmless_of_survives cj h hprocs hmem hacc
  · intro h reply hreply
    by_cases hret : reply.ret = 0
    swap
    · exact handleProcesosInfo_failed cj (getSystemInfo_failed hret)
    have hsize : outputSize 912 = 912 := by decide
    obtain ⟨procs, hprocs, hmem⟩ := collected_of_ret_zero hreply hret
    rw [hsize] at hmem
    rw [procesosInfo_912 hprocs hmem] at hreply
    cases hreply
    have hacc : (document procs).length ≤ m.accepts := copyToUser_ret_zero hret
    rw [copyToUser_all hacc]
    exact (safe_document_iff cj procs).mpr (h procs hprocs hmem hacc)

end

/-- A cJSON that keeps numbers as they are written. -/
def CJson.byText : CJson Bytes where
  parse := Lib.Json.parse
  getObjectItem := item?
  valuedouble
    | .num text => text
    | _ => [48]
  valuestring
    | .str text => some (cString text)
    | _ => none
  parse_eq _ := rfl
  getObjectItem_eq _ _ := rfl
  valuestring_eq _ := rfl

/-- A process with the name `x"},{"a":"`, which closes its entry and opens another one. -/
def closingTask : Task :=
  ⟨1, some 1, 0, 0, ⟨[120, 34, 125, 44, 123, 34, 97, 34, 58, 34], by decide, by decide⟩⟩

theorem not_survives_closing_name : ¬ Survives CJson.byText Machine.ideal [closingTask] := by
  intro h
  have hprocs : obtenerInfoProcesos Machine.ideal [closingTask] =
      some (.ok [procInfo .ideal closingTask 1]) := rfl
  have hmem : Machine.ideal.kmalloc 912 = true := by
    simp [Machine.ideal, KMALLOC_MAX_SIZE]
  have hjson : (parse (document [procInfo .ideal closingTask 1])).isSome = true := by
    decide +kernel
  have hacc : (document [procInfo .ideal closingTask 1]).length ≤ Machine.ideal.accepts := by
    have := document_length [procInfo .ideal closingTask 1]
    show _ ≤ 912
    omega
  rcases harmless_of_survives _ h hprocs hmem hacc with hnone | hcloses
  · rw [hnone] at hjson
    cases hjson
  · exact hcloses ⟨_, run_headerText, by decide +kernel⟩

end UsacSyscalls.Procs
