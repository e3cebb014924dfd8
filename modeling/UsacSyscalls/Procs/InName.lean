import UsacSyscalls.Procs.Backend

/-!
# Reading a name that is printed as it is

While a name is read, the entry it is printed in is an open object above the array.  A name can
end its own string, open and close containers, and with `}` also close the entry.

* `InEntry c` — the entry is open after `c` bytes of the name.  A key `cpu_time` has a price: the
  quotation mark that ends the name's string, a comma, two quotation marks, eight bytes and a colon.
* `inEntry_step` — one byte keeps this, or closes the entry.
* `inEntry_run` — a whole name: the entry stays open, or it is closed and what is left of the name
  is too short to make up for the price.
-/

set_option autoImplicit false

namespace UsacSyscalls.Procs

open Lib.Json

/-! ## Prices -/

/-- What the modes cost that a name reaches by its own bytes. -/
def Paid (c : Nat) : Mode → Prop
  | .next => 1 ≤ c
  | .num _ _ => 1 ≤ c
  | .value => 2 ≤ c
  | .arrStart => 2 ≤ c
  | .objStart => 2 ≤ c
  | .key => 2 ≤ c
  | .colon k => k.length + 4 ≤ c
  | .str isKey acc => isKey = true → acc.length + 3 ≤ c
  | .esc isKey acc => isKey = true → acc.length + 3 ≤ c
  | .hex isKey acc left _ => isKey = true → acc.length + (5 - left) + 3 ≤ c
  | .word _ _ => True
  | .done _ => False

/-- The bytes by which a container above the entry is past its opening bracket. -/
def ahead (f : Frame) : Mode → Nat
  | .str true _ => 1
  | .esc true _ => 1
  | .hex true _ _ _ => 1
  | .colon _ => 2
  | .next => 0
  | .key => 0
  | .objStart => 0
  | .done _ => 0
  | _ =>
    match f with
    | .arr _ => 0
    | .obj _ _ => 2

theorem Paid.succ {c : Nat} {m : Mode} (h : Paid c m) : Paid (c + 1) m := by
  cases m <;> simp only [Paid] at h ⊢ <;> first | omega | (intro hk; have := h hk; omega)

theorem Paid.wantsValue {c : Nat} {m : Mode} (h : Paid c m) (hm : m.wantsValue) : 2 ≤ c := by
  rcases hm with rfl | rfl <;> exact h

theorem Paid.wantsKey {c : Nat} {m : Mode} (h : Paid c m) (hm : m.wantsKey) : 2 ≤ c := by
  rcases hm with rfl | rfl <;> exact h

theorem Paid.inString {c n n' : Nat} {isKey : Bool} {m m' : Mode} (h : Paid c m)
    (hm : m.InString isKey n) (hm' : m'.InString isKey n') (hle : n' ≤ n + 1) :
    Paid (c + 1) m' := by
  have hn : isKey = true → n + 3 ≤ c := by cases hm <;> exact h
  cases hm' <;> (intro hk; have := hn hk; omega)

theorem Paid.inScalar {c : Nat} {m : Mode} (hm : m.InScalar) : Paid (c + 1) m := by
  cases hm with
  | num phase acc => exact Nat.le_add_left 1 c
  | word w read => trivial

theorem ahead_wantsValue {m : Mode} (h : m.wantsValue) (f : Frame) :
    ahead f m = ahead f .value := by
  rcases h with rfl | rfl <;> rfl

theorem ahead_inScalar {m : Mode} (h : m.InScalar) (f : Frame) : ahead f m = ahead f .value := by
  cases h <;> rfl

theorem ahead_inString {m m' : Mode} {isKey : Bool} {n n' : Nat} (h : m.InString isKey n)
    (h' : m'.InString isKey n') (f : Frame) : ahead f m = ahead f m' := by
  cases isKey <;> cases h <;> cases h' <;> rfl

/-! ## The open entry -/

/-- The entry has its first two members, of which the second is a string. -/
def Named (ms : Members) : Prop := ∃ v text rest, ms = (PID, v) :: (NAME, .str text) :: rest

/-- The members contain `cpu_time`. -/
def HasCpuTime (ms : Members) : Prop := ∃ m ∈ ms, lower m.1 = lower CPU_TIME

/-- The members contain `cpu_time`, or will once the value that is awaited is there. -/
def Mentions (ms : Members) (k : Bytes) : Prop := HasCpuTime ms ∨ lower k = lower CPU_TIME

/-- The containers below the entry. -/
def base (els : List Json) : List Frame := [.arr els, .obj [] ARRAY_KEY]

/-- The entry is open after `c` bytes of the name. -/
inductive InEntry (els : List Json) (c : Nat) : State → Prop where
  /-- In the name's own string. -/
  | name (m : Mode) (n : Nat) (v : Json) (hm : m.InString false n) :
      InEntry els c ⟨m, .obj [(PID, v)] NAME :: base els⟩
  /-- Behind the name, and directly in the entry. -/
  | entry (m : Mode) (ms : Members) (k : Bytes) (hms : Named ms) (hm : Paid c m)
      (hprice : Mentions ms k → 13 ≤ c) : InEntry els c ⟨m, .obj ms k :: base els⟩
  /-- In another container inside the entry. -/
  | above (m : Mode) (f : Frame) (st : List Frame) (ms : Members) (k : Bytes) (hms : Named ms)
      (hm : Paid c m) (hprice : Mentions ms k → 14 + ahead f m ≤ c) :
      InEntry els c ⟨m, f :: (st ++ .obj ms k :: base els)⟩

theorem Named.append {ms : Members} (h : Named ms) (m : Bytes × Json) : Named (ms ++ [m]) := by
  obtain ⟨v, text, rest, rfl⟩ := h
  exact ⟨v, text, rest ++ [m], rfl⟩

/-- `cpu_time` has eight bytes, and neither of the entry's first two keys is equal to it. -/
theorem lower_cpuTime : (lower CPU_TIME).length = 8 ∧ lower [] ≠ lower CPU_TIME ∧
    lower PID ≠ lower CPU_TIME ∧ lower NAME ≠ lower CPU_TIME := by
  obtain ⟨hpid, hname, -, hcpuTime, -⟩ := key_eq
  rw [hpid, hname, hcpuTime]
  decide

theorem length_of_lower_eq {k : Bytes} (h : lower k = lower CPU_TIME) : 8 ≤ k.length := by
  have := lower_length_le k
  rw [h, lower_cpuTime.1] at this
  exact this

theorem not_mentions_key {ms : Members} (h : ¬ HasCpuTime ms) {k : Bytes}
    (hk : lower k ≠ lower CPU_TIME) : ¬ Mentions ms k := by
  rintro (hms | hk')
  · exact h hms
  · exact hk hk'

/-- A value that is delivered makes the awaited member a member. -/
theorem mentions_of_append {ms : Members} {k : Bytes} {v : Json}
    (h : Mentions (ms ++ [(k, v)]) []) : Mentions ms k := by
  rcases h with ⟨m, hm, hk⟩ | hk
  · rcases List.mem_append.mp hm with hm | hm
    · exact .inl ⟨m, hm, hk⟩
    · rw [List.mem_singleton.mp hm] at hk
      exact .inr hk
  · exact absurd hk lower_cpuTime.2.1

section

variable {els : List Json} {c : Nat}

/-- A value is delivered inside the entry. -/
theorem InEntry.deliver {ms : Members} {k : Bytes} (hms : Named ms) (hc : 1 ≤ c) (v : Json) :
    ∀ (st : List Frame), (Mentions ms k → 13 ≤ c ∧ (st ≠ [] → 14 ≤ c)) →
      InEntry els c (deliver v (st ++ .obj ms k :: base els))
  | [], hprice => by
    refine .entry .next _ _ (hms.append _) hc fun h => (hprice (mentions_of_append h)).1
  | .arr els' :: st, hprice => by
    exact .above .next _ st ms k hms hc fun h => (hprice h).2 (List.cons_ne_nil _ _)
  | .obj ms' k' :: st, hprice => by
    exact .above .next _ st ms k hms hc fun h => (hprice h).2 (List.cons_ne_nil _ _)

/-- What is left when the entry is closed: it has `cpu_time` only at its price. -/
def Closed (els : List Json) (c : Nat) (s : State) : Prop :=
  ∃ ms, (HasCpuTime ms → 14 ≤ c) ∧ s = Lib.Json.deliver (.obj ms) (base els)

/-- A transition directly in the entry. -/
theorem entry_step {m : Mode} {ms : Members} {k : Bytes} {s : State} (hms : Named ms)
    (hm : Paid c m) (hprice : Mentions ms k → 13 ≤ c)
    (h : Step ⟨m, .obj ms k :: base els⟩ s) : InEntry els (c + 1) s ∨ Closed els (c + 1) s := by
  have hlater : Mentions ms k → 13 ≤ c + 1 := fun h => Nat.le_succ_of_le (hprice h)
  have hdeliver : ∀ v, InEntry els (c + 1) (Lib.Json.deliver v (.obj ms k :: base els)) :=
    fun v => .deliver hms (Nat.le_add_left 1 c) v [] fun h =>
      ⟨hlater h, fun hne => absurd rfl hne⟩
  have hopen : ∀ m' f, ahead f m' = 0 → 2 ≤ c → (2 ≤ c + 1 → Paid (c + 1) m') →
      InEntry els (c + 1) ⟨m', f :: ([] ++ .obj ms k :: base els)⟩ := by
    intro m' f hahead h2 hpaid
    refine .above m' f [] ms k hms (hpaid (by omega)) fun h => ?_
    rw [hahead]
    exact Nat.succ_le_succ (hprice h)
  cases h with
  | skip => exact .inl (.entry m ms k hms hm.succ hlater)
  | openString _ _ hv => exact .inl (.entry _ ms k hms (fun h => Bool.noConfusion h) hlater)
  | openKey _ _ hv => exact .inl (.entry _ ms k hms (fun _ => Nat.succ_le_succ (hm.wantsKey hv)) hlater)
  | inString isKey _ m' n n' _ hs hs' hle =>
    exact .inl (.entry m' ms k hms (hm.inString hs hs' hle) hlater)
  | closeString acc => exact .inl (hdeliver _)
  | closeKey acc => exact .inl (.entry _ ms k hms (Nat.succ_le_succ (hm rfl)) hlater)
  | colon _ _ k' =>
    have hm : k'.length + 4 ≤ c := hm
    refine .inl (.entry .value ms k' hms (show 2 ≤ c + 1 by omega) ?_)
    rintro (hhas | hk)
    · exact hlater (.inl hhas)
    · have := length_of_lower_eq hk
      omega
  | openScalar _ m' _ hv hs => exact .inl (.entry m' ms k hms (Paid.inScalar hs) hlater)
  | inScalar _ m' _ hs hs' => exact .inl (.entry m' ms k hms (Paid.inScalar hs') hlater)
  | closeWord w read => exact .inl (hdeliver _)
  | openArray _ _ hv => exact .inl (hopen .arrStart (.arr []) rfl (hm.wantsValue hv) id)
  | openObject _ _ hv => exact .inl (hopen .objStart (.obj [] []) rfl (hm.wantsValue hv) id)
  | commaObject =>
    have hm : 1 ≤ c := hm
    exact .inl (.entry .key ms k hms (show 2 ≤ c + 1 by omega) hlater)
  | closeObject _ _ _ _ hv => exact .inr ⟨ms, fun h => Nat.succ_le_succ (hprice (.inl h)), rfl⟩

/-- A transition in a container inside the entry. -/
theorem above_step {m : Mode} {f : Frame} {st : List Frame} {ms : Members} {k : Bytes} {s : State}
    (hms : Named ms) (hm : Paid c m) (hprice : Mentions ms k → 14 + ahead f m ≤ c)
    (h : Step ⟨m, f :: (st ++ .obj ms k :: base els)⟩ s) : InEntry els (c + 1) s := by
  have hdeliver : ∀ v st', InEntry els (c + 1) (Lib.Json.deliver v (st' ++ .obj ms k :: base els)) :=
    fun v st' => .deliver hms (Nat.le_add_left 1 c) v st' fun h => by
      have := hprice h
      omega
  have hstay : ∀ m' f', Paid (c + 1) m' → ahead f' m' ≤ ahead f m + 1 →
      InEntry els (c + 1) ⟨m', f' :: (st ++ .obj ms k :: base els)⟩ := by
    intro m' f' hpaid hle
    refine .above m' f' st ms k hms hpaid fun h => ?_
    have := hprice h
    omega
  have hopen : ∀ m' f', ahead f' m' = 0 → Paid (c + 1) m' →
      InEntry els (c + 1) ⟨m', f' :: (f :: st ++ .obj ms k :: base els)⟩ := by
    intro m' f' hahead hpaid
    refine .above m' f' (f :: st) ms k hms hpaid fun h => ?_
    have := hprice h
    omega
  cases h with
  | skip => exact hstay m f hm.succ (Nat.le_succ _)
  | openString _ _ hv =>
    refine hstay _ f (fun h => Bool.noConfusion h) ?_
    rw [ahead_wantsValue hv f]
    exact Nat.le_succ _
  | openKey _ _ hv =>
    exact hstay _ f (fun _ => Nat.succ_le_succ (hm.wantsKey hv)) (Nat.le_add_left 1 _)
  | inString isKey _ m' n n' _ hs hs' hle =>
    refine hstay m' f (hm.inString hs hs' hle) ?_
    rw [ahead_inString hs hs' f]
    exact Nat.le_succ _
  | closeString acc => exact hdeliver _ (f :: st)
  | closeKey acc => exact hstay _ f (Nat.succ_le_succ (hm rfl)) (Nat.le_refl 2)
  | colon ms' k₀ k' =>
    have hm : k'.length + 4 ≤ c := hm
    exact hstay .value _ (show 2 ≤ c + 1 by omega) (Nat.le_succ 2)
  | openScalar _ m' _ hv hs =>
    refine hstay m' f (Paid.inScalar hs) ?_
    rw [ahead_inScalar hs f, ahead_wantsValue hv f]
    exact Nat.le_succ _
  | inScalar _ m' _ hs hs' =>
    refine hstay m' f (Paid.inScalar hs') ?_
    rw [ahead_inScalar hs f, ahead_inScalar hs' f]
    exact Nat.le_succ _
  | closeWord w read => exact hdeliver _ (f :: st)
  | openArray _ _ hv =>
    exact hopen .arrStart (.arr []) rfl (Nat.le_succ_of_le (hm.wantsValue hv))
  | openObject _ _ hv =>
    exact hopen .objStart (.obj [] []) rfl (Nat.le_succ_of_le (hm.wantsValue hv))
  | commaArray els' => exact hstay .value (.arr els') (Nat.succ_le_succ hm) (Nat.zero_le _)
  | commaObject ms' k' => exact hstay .key (.obj ms' k') (Nat.succ_le_succ hm) (Nat.zero_le _)
  | closeArray _ els' => exact hdeliver _ st
  | closeObject _ ms' k' => exact hdeliver _ st

/-- **One byte of a name** keeps the entry open or closes it. -/
theorem inEntry_step {s s' : State} {b : UInt8} (hs : InEntry els c s) (h : step s b = some s') :
    InEntry els (c + 1) s' ∨ Closed els (c + 1) s' := by
  cases hs with
  | name m n v hm =>
    left
    rcases step_inString hm h with ⟨m', n', hm', -, rfl⟩ | ⟨acc, rfl, rfl⟩
    · exact .name m' n' v hm'
    · refine .entry .next _ [] ⟨v, acc, [], rfl⟩ (Nat.le_add_left 1 c) fun hmention => ?_
      exact absurd hmention (not_mentions_key (by
        rintro ⟨m, hmem, hk⟩
        rcases List.mem_cons.mp hmem with rfl | hmem
        · exact absurd hk lower_cpuTime.2.2.1
        · rw [List.mem_singleton.mp hmem] at hk
          exact absurd hk lower_cpuTime.2.2.2) lower_cpuTime.2.1)
  | entry m ms k hms hm hprice =>
    rcases step_cases h with h | ⟨phase, acc, rfl, h⟩
    · exact entry_step hms hm hprice h
    · -- the number is delivered first, which costs nothing
      have h : Step ⟨.next, .obj (ms ++ [(k, .num acc)]) [] :: base els⟩ s' := h
      have hm : Paid c .next := hm
      exact entry_step (hms.append _) hm (fun hmention => hprice (mentions_of_append hmention)) h
  | above m f st ms k hms hm hprice =>
    left
    rcases step_cases h with h | ⟨phase, acc, rfl, h⟩
    · exact above_step hms hm hprice h
    · have hprice' : Mentions ms k → 14 + 0 ≤ c := fun hmention => by
        have := hprice hmention
        omega
      cases f with
      | arr els' => exact above_step (m := .next) (f := .arr _) hms hm hprice' h
      | obj ms' k' => exact above_step (m := .next) (f := .obj _ _) hms hm hprice' h

/-! ## A whole name -/

theorem InEntry.three_open {s : State} (h : InEntry els c s) : 3 ≤ s.stack.length := by
  cases h with
  | name m n v hm => exact Nat.le_refl 3
  | entry m ms k hms hm hprice => exact Nat.le_refl 3
  | above m f st ms k hms hm hprice =>
    show 3 ≤ (f :: (st ++ .obj ms k :: base els)).length
    rw [List.length_cons, List.length_append]
    have : (Frame.obj ms k :: base els).length = 3 := rfl
    omega

/-- **A name keeps its entry open, or closes it** and has then at most as many bytes left as the
    price of `cpu_time` leaves. -/
theorem inEntry_run : ∀ {text : Bytes} {c : Nat} {s t : State}, InEntry els c s →
    run s text = some t →
    (dips 3 s text = false ∧ InEntry els (c + text.length) t) ∨
      (dips 3 s text = true ∧ ∃ ms rest, (HasCpuTime ms → 14 + rest.length ≤ c + text.length) ∧
        run (Lib.Json.deliver (.obj ms) (base els)) rest = some t)
  | [], c, s, t, hs, h => by
    cases h
    have hopen := hs.three_open
    exact .inl ⟨by simpa [dips] using hopen, hs⟩
  | b :: bs, c, s, t, hs, h => by
    have hopen := hs.three_open
    rw [run_cons] at h
    obtain ⟨s', hstep, hrun⟩ := Option.bind_eq_some_iff.mp h
    have hdips : dips 3 s (b :: bs) = dips 3 s' bs := by
      rw [dips, hstep]
      simp [Nat.not_lt.mpr hopen]
    have hlen : c + (b :: bs).length = c + 1 + bs.length := by
      rw [List.length_cons]
      omega
    rw [hdips, hlen]
    rcases inEntry_step hs hstep with hs' | ⟨ms, hprice, rfl⟩
    · exact inEntry_run hs' hrun
    · right
      refine ⟨dips_of_lt bs (Nat.le_refl 3), ms, bs, fun hhas => ?_, hrun⟩
      have := hprice hhas
      omega

end

end UsacSyscalls.Procs
