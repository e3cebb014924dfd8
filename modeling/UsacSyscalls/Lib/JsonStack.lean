import UsacSyscalls.Lib.Json

/-!
# What one byte can do to the reader

`Step` lists the transitions of the reader without the bytes that cause them, and `step_cases`
says that a byte makes one of them; a byte behind a number first completes the number.  Every
invariant of a run is checked on the transitions.

* `StackInvariant.run` — an invariant of the open containers and of the finished value.
* `Located.stackInvariant` — one element of the array that the outermost object starts with, from
  the moment it is open to the end of the text.
-/

set_option autoImplicit false

namespace Lib.Json

/-! ## Strings and scalars -/

/-- Inside a string of which `written` bytes are decoded; the digits of a `\u` escape count, as
    the escape decodes to at most as many bytes. -/
inductive Mode.InString (isKey : Bool) : Mode → Nat → Prop where
  | str (acc : List UInt8) : Mode.InString isKey (.str isKey acc) acc.length
  | esc (acc : List UInt8) : Mode.InString isKey (.esc isKey acc) acc.length
  | hex (acc : List UInt8) (left code : Nat) :
      Mode.InString isKey (.hex isKey acc left code) (acc.length + (5 - left))

/-- Inside a number or a word. -/
inductive Mode.InScalar : Mode → Prop where
  | num (phase : Phase) (acc : List UInt8) : Mode.InScalar (.num phase acc)
  | word (w : Word) (read : Nat) : Mode.InScalar (.word w read)

/-- A value may start here. -/
def Mode.wantsValue (m : Mode) : Prop := m = .value ∨ m = .arrStart

/-- A key may start here. -/
def Mode.wantsKey (m : Mode) : Prop := m = .key ∨ m = .objStart

theorem utf8_length_le (code : Nat) : (utf8 code).length ≤ 3 := by
  unfold utf8
  split
  · show 1 ≤ 3
    omega
  · split
    · show 2 ≤ 3
      omega
    · exact Nat.le_refl 3

/-! ## The transitions -/

inductive Step : State → State → Prop where
  | skip (s : State) : Step s s
  | openString (m : Mode) (st : List Frame) (h : m.wantsValue) : Step ⟨m, st⟩ ⟨.str false [], st⟩
  | openKey (m : Mode) (st : List Frame) (h : m.wantsKey) : Step ⟨m, st⟩ ⟨.str true [], st⟩
  | inString (isKey : Bool) (m m' : Mode) (n n' : Nat) (st : List Frame)
      (h : m.InString isKey n) (h' : m'.InString isKey n') (hle : n' ≤ n + 1) :
      Step ⟨m, st⟩ ⟨m', st⟩
  | closeString (acc : List UInt8) (st : List Frame) :
      Step ⟨.str false acc, st⟩ (deliver (.str acc) st)
  | closeKey (acc : List UInt8) (st : List Frame) : Step ⟨.str true acc, st⟩ ⟨.colon acc, st⟩
  | colon (ms : Members) (k₀ k : List UInt8) (st : List Frame) :
      Step ⟨.colon k, .obj ms k₀ :: st⟩ ⟨.value, .obj ms k :: st⟩
  | openScalar (m m' : Mode) (st : List Frame) (h : m.wantsValue) (h' : m'.InScalar) :
      Step ⟨m, st⟩ ⟨m', st⟩
  | inScalar (m m' : Mode) (st : List Frame) (h : m.InScalar) (h' : m'.InScalar) :
      Step ⟨m, st⟩ ⟨m', st⟩
  | closeWord (w : Word) (read : Nat) (st : List Frame) :
      Step ⟨.word w read, st⟩ (deliver w.json st)
  | openArray (m : Mode) (st : List Frame) (h : m.wantsValue) :
      Step ⟨m, st⟩ ⟨.arrStart, .arr [] :: st⟩
  | openObject (m : Mode) (st : List Frame) (h : m.wantsValue) :
      Step ⟨m, st⟩ ⟨.objStart, .obj [] [] :: st⟩
  | commaArray (els : List Json) (st : List Frame) :
      Step ⟨.next, .arr els :: st⟩ ⟨.value, .arr els :: st⟩
  | commaObject (ms : Members) (k : List UInt8) (st : List Frame) :
      Step ⟨.next, .obj ms k :: st⟩ ⟨.key, .obj ms k :: st⟩
  | closeArray (m : Mode) (els : List Json) (st : List Frame) (h : m = .next ∨ m = .arrStart) :
      Step ⟨m, .arr els :: st⟩ (deliver (.arr els) st)
  | closeObject (m : Mode) (ms : Members) (k : List UInt8) (st : List Frame)
      (h : m = .next ∨ m = .objStart) : Step ⟨m, .obj ms k :: st⟩ (deliver (.obj ms) st)

theorem Step.of_closeArray {m : Mode} {st : List Frame} {s : State} (hm : m = .next ∨ m = .arrStart)
    (h : Json.closeArray st = some s) : Step ⟨m, st⟩ s := by
  unfold Json.closeArray at h
  split at h
  · cases h
    exact .closeArray m _ _ hm
  · cases h

theorem Step.of_closeObject {m : Mode} {st : List Frame} {s : State}
    (hm : m = .next ∨ m = .objStart) (h : Json.closeObject st = some s) : Step ⟨m, st⟩ s := by
  unfold Json.closeObject at h
  split at h
  · cases h
    exact .closeObject m _ _ _ hm
  · cases h

theorem Step.of_comma {st : List Frame} {s : State} (h : comma st = some s) :
    Step ⟨.next, st⟩ s := by
  unfold comma at h
  split at h
  · cases h
    exact .commaArray _ _
  · cases h
    exact .commaObject _ _ _
  · cases h

theorem Step.of_afterValue {s s' : State} {b : UInt8} (h : afterValue s b = some s') :
    Step s s' := by
  obtain ⟨m, st⟩ := s
  unfold afterValue at h
  split at h
  · cases h
    exact .skip _
  · split at h
    · rename_i hm
      obtain rfl : m = .next := hm
      split at h
      · exact .of_comma h
      · split at h
        · exact .of_closeArray (.inl rfl) h
        · split at h
          · exact .of_closeObject (.inl rfl) h
          · cases h
    · cases h

theorem Step.of_startValue {m : Mode} {b : UInt8} {st : List Frame} {s : State}
    (hm : m.wantsValue) (h : startValue b st = some s) : Step ⟨m, st⟩ s := by
  unfold startValue at h
  split at h
  · cases h; exact .openString m st hm
  split at h
  · cases h; exact .openObject m st hm
  split at h
  · cases h; exact .openArray m st hm
  split at h
  · cases h; exact .openScalar m _ st hm (.word _ _)
  split at h
  · cases h; exact .openScalar m _ st hm (.word _ _)
  split at h
  · cases h; exact .openScalar m _ st hm (.word _ _)
  split at h
  · cases h; exact .openScalar m _ st hm (.num _ _)
  split at h
  · cases h; exact .openScalar m _ st hm (.num _ _)
  split at h
  · cases h; exact .openScalar m _ st hm (.num _ _)
  · cases h

/-- What stands behind the closing quotation mark of a string. -/
def endString (isKey : Bool) (acc : List UInt8) (st : List Frame) : State :=
  if isKey then ⟨.colon acc, st⟩ else deliver (.str acc) st

/-- **A byte inside a string** decodes to at most one more byte, or ends the string. -/
theorem step_inString {isKey : Bool} {m : Mode} {n : Nat} {st : List Frame} {s : State} {b : UInt8}
    (hm : m.InString isKey n) (h : step ⟨m, st⟩ b = some s) :
    (∃ m' n', m'.InString isKey n' ∧ n' ≤ n + 1 ∧ s = ⟨m', st⟩) ∨
      ∃ acc, m = .str isKey acc ∧ s = endString isKey acc st := by
  cases hm with
  | str acc =>
    simp only [step] at h
    split at h
    · cases h
      exact .inr ⟨acc, rfl, rfl⟩
    split at h
    · cases h
      exact .inl ⟨_, _, .esc acc, Nat.le_succ _, rfl⟩
    split at h
    · cases h
    · cases h
      exact .inl ⟨_, _, .str _, Nat.le_of_eq List.length_append, rfl⟩
  | esc acc =>
    simp only [step] at h
    split at h
    · cases h
      exact .inl ⟨_, _, .hex acc 4 0, Nat.le_refl _, rfl⟩
    · obtain ⟨c, -, rfl⟩ := Option.map_eq_some_iff.mp h
      exact .inl ⟨_, _, .str _, Nat.le_of_eq List.length_append, rfl⟩
  | hex acc left code =>
    simp only [step] at h
    obtain ⟨d, -, rfl⟩ := Option.map_eq_some_iff.mp h
    split
    · have := utf8_length_le (16 * code + d)
      refine .inl ⟨_, _, .str _, ?_, rfl⟩
      rw [List.length_append]
      omega
    · exact .inl ⟨_, _, .hex acc (left - 1) _, by omega, rfl⟩

theorem Step.of_inString {isKey : Bool} {m : Mode} {n : Nat} {st : List Frame} {s : State}
    {b : UInt8} (hm : m.InString isKey n) (h : Json.step ⟨m, st⟩ b = some s) : Step ⟨m, st⟩ s := by
  rcases step_inString hm h with ⟨m', n', hm', hle, rfl⟩ | ⟨acc, rfl, rfl⟩
  · exact .inString isKey m m' n n' st hm hm' hle
  · cases isKey with
    | false => exact .closeString acc st
    | true => exact .closeKey acc st

/-- **One byte makes one transition**; behind a number it makes it after the number has been
    delivered. -/
theorem step_cases {s s' : State} {b : UInt8} (h : step s b = some s') :
    Step s s' ∨ ∃ phase acc, s.mode = .num phase acc ∧ Step (deliver (.num acc) s.stack) s' := by
  obtain ⟨m, st⟩ := s
  cases m with
  | value =>
    simp only [step] at h
    split at h
    · cases h
      exact .inl (.skip _)
    · exact .inl (.of_startValue (.inl rfl) h)
  | arrStart =>
    simp only [step] at h
    split at h
    · cases h
      exact .inl (.skip _)
    · split at h
      · exact .inl (.of_closeArray (.inr rfl) h)
      · exact .inl (.of_startValue (.inr rfl) h)
  | objStart =>
    simp only [step] at h
    split at h
    · cases h
      exact .inl (.skip _)
    · split at h
      · exact .inl (.of_closeObject (.inr rfl) h)
      · split at h
        · cases h
          exact .inl (.openKey _ st (.inr rfl))
        · cases h
  | key =>
    simp only [step] at h
    split at h
    · cases h
      exact .inl (.skip _)
    · split at h
      · cases h
        exact .inl (.openKey _ st (.inl rfl))
      · cases h
  | colon k =>
    simp only [step] at h
    split at h
    · cases h
      exact .inl (.skip _)
    · split at h
      · split at h
        · cases h
          exact .inl (.colon _ _ k _)
        · cases h
      · cases h
  | next => exact .inl (.of_afterValue h)
  | done v => exact .inl (.of_afterValue h)
  | str isKey acc => exact .inl (.of_inString (.str acc) h)
  | esc isKey acc => exact .inl (.of_inString (.esc acc) h)
  | hex isKey acc left code => exact .inl (.of_inString (.hex acc left code) h)
  | num phase acc =>
    simp only [step] at h
    split at h
    · cases h
      exact .inl (.inScalar _ _ st (.num _ _) (.num _ _))
    · split at h
      · exact .inr ⟨phase, acc, rfl, .of_afterValue h⟩
      · cases h
  | word w read =>
    simp only [step] at h
    split at h
    · cases h
      split
      · exact .inl (.closeWord w read st)
      · exact .inl (.inScalar _ _ st (.word _ _) (.word _ _))
    · cases h

/-! ## Strings that do not stand for themselves -/

/-- A run from inside a string stays inside, or goes on behind the string's value. -/
theorem run_inString {st : List Frame} {s : State} : ∀ {text : List UInt8} {m : Mode} {n : Nat},
    m.InString false n → run ⟨m, st⟩ text = some s →
    (∃ m' n', m'.InString false n' ∧ n' ≤ n + text.length ∧ s = ⟨m', st⟩) ∨
      ∃ acc rest, acc.length + rest.length + 1 ≤ n + text.length ∧
        run (deliver (.str acc) st) rest = some s
  | [], m, n, hm, h => by
    cases h
    exact .inl ⟨m, n, hm, Nat.le_refl _, rfl⟩
  | b :: bs, m, n, hm, h => by
    rw [run_cons] at h
    obtain ⟨t, hstep, hrun⟩ := Option.bind_eq_some_iff.mp h
    rw [List.length_cons]
    rcases step_inString hm hstep with ⟨m', n', hm', hle, rfl⟩ | ⟨acc, rfl, rfl⟩
    · rcases run_inString hm' hrun with ⟨m'', n'', hm'', hn, hs⟩ | ⟨acc, rest, hn, hr⟩
      · exact .inl ⟨m'', n'', hm'', by omega, hs⟩
      · exact .inr ⟨acc, rest, by omega, hr⟩
    · cases hm
      exact .inr ⟨acc, bs, by omega, hrun⟩

/-- **A text that is not plain does not survive between quotation marks**: it decodes to fewer
    bytes, or the string ends inside it. -/
theorem run_not_plain {st : List Frame} {s : State} : ∀ {text acc : List UInt8},
    text.all isPlain = false → run ⟨.str false acc, st⟩ text = some s →
    (∃ m n, m.InString false n ∧ n < acc.length + text.length ∧ s = ⟨m, st⟩) ∨
      ∃ acc' rest, acc'.length < acc.length + text.length ∧
        run (deliver (.str acc') st) rest = some s
  | [], acc, hp, _ => by cases hp
  | b :: bs, acc, hp, h => by
    rw [List.length_cons]
    by_cases hb : isPlain b = true
    · have hbs : bs.all isPlain = false := by simpa [hb] using hp
      rw [run_cons, step_plain hb, Option.bind_some] at h
      have hlen : (acc ++ [b]).length = acc.length + 1 := List.length_append
      rcases run_not_plain hbs h with ⟨m, n, hm, hn, hs⟩ | ⟨acc', rest, hn, hr⟩
      · exact .inl ⟨m, n, hm, by omega, hs⟩
      · exact .inr ⟨acc', rest, by omega, hr⟩
    · -- the first byte that does not stand for itself
      rw [run_cons] at h
      obtain ⟨t, hstep, hrun⟩ := Option.bind_eq_some_iff.mp h
      simp only [step] at hstep
      split at hstep
      · cases hstep
        exact .inr ⟨acc, bs, by omega, hrun⟩
      split at hstep
      · cases hstep
        rcases run_inString (.esc acc) hrun with ⟨m, n, hm, hn, hs⟩ | ⟨acc', rest, hn, hr⟩
        · exact .inl ⟨m, n, hm, by omega, hs⟩
        · exact .inr ⟨acc', rest, by omega, hr⟩
      split at hstep
      · cases hstep
      · rename_i h34 h92 h32
        exact absurd (by simp [isPlain, h34, h92, UInt8.not_lt.mp h32]) hb

/-! ## Depth -/

/-- While `text` is read from `s`, fewer than `n` containers are open at some point. -/
def dips (n : Nat) : State → List UInt8 → Bool
  | s, [] => s.stack.length < n
  | s, b :: bs => s.stack.length < n ||
    match step s b with
    | none => false
    | some t => dips n t bs

theorem dips_of_lt {n : Nat} {s : State} (text : List UInt8) (h : s.stack.length < n) :
    dips n s text = true := by
  cases text <;> simp [dips, h]

/-! ## Invariants of the open containers -/

/-- `S` holds of the open containers, or `D` of the finished value. -/
def Carries (S : List Frame → Prop) (D : Json → Prop) (s : State) : Prop :=
  match s.mode with
  | .done v => D v
  | _ => S s.stack

/-- What has to be checked of `S` and `D` so that every run carries them. -/
structure StackInvariant (S : List Frame → Prop) (D : Json → Prop) : Prop where
  openArray : ∀ st, S st → S (.arr [] :: st)
  openObject : ∀ st, S st → S (.obj [] [] :: st)
  colon : ∀ ms k k' st, S (.obj ms k :: st) → S (.obj ms k' :: st)
  deliver : ∀ v st, S st → Carries S D (deliver v st)
  closeArray : ∀ els st, S (.arr els :: st) → Carries S D (Lib.Json.deliver (.arr els) st)
  closeObject : ∀ ms k st, S (.obj ms k :: st) → Carries S D (Lib.Json.deliver (.obj ms) st)

variable {S : List Frame → Prop} {D : Json → Prop}

theorem StackInvariant.step_of_stack (inv : StackInvariant S D) {s s' : State} (h : Step s s')
    (hs : Carries S D s) : Carries S D s' := by
  cases h with
  | skip => exact hs
  | openString m st hm => rcases hm with rfl | rfl <;> exact hs
  | openKey m st hm => rcases hm with rfl | rfl <;> exact hs
  | inString isKey m m' n n' st hm hm' => cases hm <;> cases hm' <;> exact hs
  | closeString acc st => exact inv.deliver _ st hs
  | closeKey => exact hs
  | colon ms k₀ k st => exact inv.colon ms k₀ k st hs
  | openScalar m m' st hm hm' => rcases hm with rfl | rfl <;> cases hm' <;> exact hs
  | inScalar m m' st hm hm' => cases hm <;> cases hm' <;> exact hs
  | closeWord w read st => exact inv.deliver _ st hs
  | openArray m st hm => rcases hm with rfl | rfl <;> exact inv.openArray st hs
  | openObject m st hm => rcases hm with rfl | rfl <;> exact inv.openObject st hs
  | commaArray => exact hs
  | commaObject => exact hs
  | closeArray m els st hm => rcases hm with rfl | rfl <;> exact inv.closeArray els st hs
  | closeObject m ms k st hm => rcases hm with rfl | rfl <;> exact inv.closeObject ms k st hs

theorem StackInvariant.step (inv : StackInvariant S D) {s s' : State} {b : UInt8}
    (h : step s b = some s') (hs : Carries S D s) : Carries S D s' := by
  rcases step_cases h with h | ⟨phase, acc, hm, h⟩
  · exact inv.step_of_stack h hs
  · refine inv.step_of_stack h (inv.deliver _ _ ?_)
    rwa [Carries, hm] at hs

/-- **The invariant rule.** -/
theorem StackInvariant.run (inv : StackInvariant S D) : ∀ {text : List UInt8} {s s' : State},
    run s text = some s' → Carries S D s → Carries S D s'
  | [], s, s', h, hs => by
    cases h
    exact hs
  | b :: bs, s, s', h, hs => by
    rw [run_cons] at h
    obtain ⟨t, hstep, hrun⟩ := Option.bind_eq_some_iff.mp h
    exact inv.run hrun (inv.step hstep hs)

theorem Carries.of_result {s : State} {v : Json} (hs : Carries S D s) (hne : ¬ S [])
    (h : s.result = some v) : D v := by
  unfold State.result at h
  unfold Carries at hs
  split at h
  · rename_i w hm
    cases h
    rwa [hm] at hs
  · rename_i phase acc hm
    split at h
    · rename_i hc
      rw [hm] at hs
      exact absurd (List.length_eq_zero_iff.mp hc.2 ▸ hs) hne
    · cases h
  · cases h

/-! ## One element of the array -/

/-- The element `i` of the array under the first key `K` of the outermost object: it is open and
    its members satisfy `P`, or it is complete and satisfies `Q`. -/
inductive Located (K : List UInt8) (i : Nat) (P : Members → Prop) (Q : Json → Prop) :
    List Frame → Prop where
  | element (ms : Members) (k : List UInt8) (els : List Json) (hi : els.length = i) (hms : P ms) :
      Located K i P Q [.obj ms k, .arr els, .obj [] K]
  | array (els : List Json) (e : Json) (hi : els[i]? = some e) (he : Q e) :
      Located K i P Q [.arr els, .obj [] K]
  | object (els : List Json) (e : Json) (ms : Members) (k : List UInt8) (hi : els[i]? = some e)
      (he : Q e) : Located K i P Q [.obj ((K, .arr els) :: ms) k]
  | above (f : Frame) (st : List Frame) (h : Located K i P Q st) : Located K i P Q (f :: st)

/-- The value is an object that starts with such an array. -/
def Found (K : List UInt8) (i : Nat) (Q : Json → Prop) (v : Json) : Prop :=
  ∃ els e ms, v = .obj ((K, .arr els) :: ms) ∧ els[i]? = some e ∧ Q e

variable {K : List UInt8} {i : Nat} {P : Members → Prop} {Q : Json → Prop}

theorem Located.ne_nil {st : List Frame} (h : Located K i P Q st) : st ≠ [] := by
  cases h <;> exact List.cons_ne_nil _ _

theorem getElem?_append_some {els : List Json} {e : Json} (hi : els[i]? = some e)
    (v : Json) : (els ++ [v])[i]? = some e := by
  obtain ⟨hlt, -⟩ := List.getElem?_eq_some_iff.mp hi
  rw [List.getElem?_append_left hlt, hi]

theorem Located.deliver {st : List Frame} (hP : ∀ ms m, P ms → P (ms ++ [m]))
    (h : Located K i P Q st) (v : Json) :
    Carries (Located K i P Q) (Found K i Q) (deliver v st) := by
  cases h with
  | element ms k els hi hms => exact .element _ _ els hi (hP ms _ hms)
  | array els e hi he => exact .array _ e (getElem?_append_some hi v) he
  | object els e ms k hi he => exact .object els e _ _ hi he
  | above f st h => cases f <;> exact .above _ st h

/-- **The element is not lost**: members are only added to it, and once it is complete it stays
    where it is. -/
theorem Located.stackInvariant (hP : ∀ ms m, P ms → P (ms ++ [m]))
    (hQ : ∀ ms, P ms → Q (.obj ms)) :
    StackInvariant (Located K i P Q) (Found K i Q) where
  openArray st h := .above _ st h
  openObject st h := .above _ st h
  colon ms k k' st h := by
    cases h with
    | element _ _ els hi hms => exact .element ms k' els hi hms
    | object els e ms _ hi he => exact .object els e ms k' hi he
    | above _ _ h => exact .above _ st h
  deliver v st h := h.deliver hP v
  closeArray els st h := by
    cases h with
    | array _ e hi he => exact .object els e [] [] hi he
    | above _ _ h => exact h.deliver hP _
  closeObject ms k st h := by
    cases h with
    | element _ _ els hi hms =>
      refine .array _ (.obj ms) ?_ (hQ ms hms)
      rw [← hi]
      exact List.getElem?_concat_length
    | object els e ms' _ hi he => exact ⟨els, e, ms', rfl, hi, he⟩
    | above _ _ h => exact h.deliver hP _

end Lib.Json
