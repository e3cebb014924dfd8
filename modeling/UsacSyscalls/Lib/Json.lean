import UsacSyscalls.Lib.Decimal

/-!
# Reading JSON byte by byte

`step` is a pushdown automaton for JSON texts: a `State` is what is expected next and the stack of
the containers that are open, each with what it contains so far.  `parse` runs it over a text and
returns the value.  Strings are byte strings: bytes from 0x20 on stand for themselves, and a `\u`
escape denotes the UTF-8 encoding of its code unit.  Numbers are kept as they are written.

Because a run over `xs ++ ys` is a run over `xs` and then over `ys` (`run_append`), texts that are
printed piece by piece can be read piece by piece: `run_plain`, `run_key` and `run_integer` are the
pieces a printer of records is made of.
-/

set_option autoImplicit false
set_option linter.dupNamespace false

namespace Lib.Json

open Lib.Decimal

inductive Json where
  | null
  | bool (b : Bool)
  | num (text : List UInt8)
  | str (text : List UInt8)
  | arr (els : List Json)
  | obj (members : List (List UInt8 × Json))

abbrev Members := List (List UInt8 × Json)

/-- An open container.  An object holds the key whose value is being read. -/
inductive Frame where
  | arr (els : List Json)
  | obj (members : Members) (key : List UInt8)

/-- How far a number literal has got. -/
inductive Phase where
  | minus
  | zero
  | int
  | dot
  | frac
  | exp
  | expSign
  | expDigits
  deriving DecidableEq, Repr

/-- The values that are words. -/
inductive Word where
  | true
  | false
  | null
  deriving DecidableEq, Repr

def Word.text : Word → List UInt8
  | .true => [116, 114, 117, 101]
  | .false => [102, 97, 108, 115, 101]
  | .null => [110, 117, 108, 108]

def Word.json : Word → Json
  | .true => .bool .true
  | .false => .bool .false
  | .null => .null

/-- What is expected next. -/
inductive Mode where
  /-- A value. -/
  | value
  /-- A value or the end of the array. -/
  | arrStart
  /-- A key or the end of the object. -/
  | objStart
  /-- A key. -/
  | key
  | colon (k : List UInt8)
  /-- A comma or the end of the container. -/
  | next
  /-- The rest of a string, which is a key or a value. -/
  | str (isKey : Bool) (acc : List UInt8)
  | esc (isKey : Bool) (acc : List UInt8)
  /-- `left` more digits of a `\u` escape. -/
  | hex (isKey : Bool) (acc : List UInt8) (left code : Nat)
  | num (phase : Phase) (acc : List UInt8)
  /-- The letters of `w` from number `read` on. -/
  | word (w : Word) (read : Nat)
  /-- White space behind the whole value. -/
  | done (v : Json)

structure State where
  mode : Mode
  stack : List Frame

/-- The state in front of a text. -/
def State.start : State := ⟨.value, []⟩

def isWs (b : UInt8) : Bool := b == 32 || b == 9 || b == 10 || b == 13

/-- Put a value that is complete into the innermost container. -/
def deliver (v : Json) : List Frame → State
  | [] => ⟨.done v, []⟩
  | .arr els :: st => ⟨.next, .arr (els ++ [v]) :: st⟩
  | .obj ms k :: st => ⟨.next, .obj (ms ++ [(k, v)]) [] :: st⟩

def closeArray : List Frame → Option State
  | .arr els :: st => some (deliver (.arr els) st)
  | _ => none

def closeObject : List Frame → Option State
  | .obj ms _ :: st => some (deliver (.obj ms) st)
  | _ => none

def comma : List Frame → Option State
  | .arr els :: st => some ⟨.value, .arr els :: st⟩
  | .obj ms k :: st => some ⟨.key, .obj ms k :: st⟩
  | [] => none

/-- A byte behind a complete value. -/
def afterValue (s : State) (b : UInt8) : Option State :=
  if isWs b then some s
  else
    match s.mode with
    | .next =>
      if b = 44 then comma s.stack
      else if b = 93 then closeArray s.stack
      else if b = 125 then closeObject s.stack
      else none
    | _ => none

/-- The first byte of a value. -/
def startValue (b : UInt8) (st : List Frame) : Option State :=
  if b = 34 then some ⟨.str false [], st⟩
  else if b = 123 then some ⟨.objStart, .obj [] [] :: st⟩
  else if b = 91 then some ⟨.arrStart, .arr [] :: st⟩
  else if b = 116 then some ⟨.word .true 1, st⟩
  else if b = 102 then some ⟨.word .false 1, st⟩
  else if b = 110 then some ⟨.word .null 1, st⟩
  else if b = 45 then some ⟨.num .minus [45], st⟩
  else if b = 48 then some ⟨.num .zero [48], st⟩
  else if isDigit b then some ⟨.num .int [b], st⟩
  else none

/-- The next byte of a number; `none` when the literal ends in front of it. -/
def Phase.next (b : UInt8) : Phase → Option Phase
  | .minus => if b = 48 then some .zero else if isDigit b then some .int else none
  | .zero => if b = 46 then some .dot else if b = 69 ∨ b = 101 then some .exp else none
  | .int =>
    if isDigit b then some .int
    else if b = 46 then some .dot else if b = 69 ∨ b = 101 then some .exp else none
  | .dot => if isDigit b then some .frac else none
  | .frac => if isDigit b then some .frac else if b = 69 ∨ b = 101 then some .exp else none
  | .exp => if b = 43 ∨ b = 45 then some .expSign else if isDigit b then some .expDigits else none
  | .expSign => if isDigit b then some .expDigits else none
  | .expDigits => if isDigit b then some .expDigits else none

/-- A number may end here. -/
def Phase.complete : Phase → Bool
  | .zero => true
  | .int => true
  | .frac => true
  | .expDigits => true
  | _ => false

/-- The byte that a two-character escape denotes. -/
def unescape (b : UInt8) : Option UInt8 :=
  if b = 34 ∨ b = 92 ∨ b = 47 then some b
  else if b = 98 then some 8
  else if b = 102 then some 12
  else if b = 110 then some 10
  else if b = 114 then some 13
  else if b = 116 then some 9
  else none

def hexDigit (b : UInt8) : Option Nat :=
  if isDigit b then some (b.toNat - 48)
  else if 65 ≤ b ∧ b ≤ 70 then some (b.toNat - 55)
  else if 97 ≤ b ∧ b ≤ 102 then some (b.toNat - 87)
  else none

/-- The UTF-8 encoding of a code unit. -/
def utf8 (code : Nat) : List UInt8 :=
  if code < 128 then [code.toUInt8]
  else if code < 2048 then [(192 + code / 64).toUInt8, (128 + code % 64).toUInt8]
  else [(224 + code / 4096).toUInt8, (128 + code / 64 % 64).toUInt8, (128 + code % 64).toUInt8]

/-- One byte of the text. -/
def step (s : State) (b : UInt8) : Option State :=
  match s.mode with
  | .value => if isWs b then some s else startValue b s.stack
  | .arrStart =>
    if isWs b then some s else if b = 93 then closeArray s.stack else startValue b s.stack
  | .objStart =>
    if isWs b then some s
    else if b = 125 then closeObject s.stack
    else if b = 34 then some ⟨.str true [], s.stack⟩ else none
  | .key => if isWs b then some s else if b = 34 then some ⟨.str true [], s.stack⟩ else none
  | .colon k =>
    if isWs b then some s
    else if b = 58 then
      match s.stack with
      | .obj ms _ :: st => some ⟨.value, .obj ms k :: st⟩
      | _ => none
    else none
  | .next => afterValue s b
  | .done _ => afterValue s b
  | .str isKey acc =>
    if b = 34 then some (if isKey then ⟨.colon acc, s.stack⟩ else deliver (.str acc) s.stack)
    else if b = 92 then some ⟨.esc isKey acc, s.stack⟩
    else if b < 32 then none
    else some ⟨.str isKey (acc ++ [b]), s.stack⟩
  | .esc isKey acc =>
    if b = 117 then some ⟨.hex isKey acc 4 0, s.stack⟩
    else (unescape b).map fun c => ⟨.str isKey (acc ++ [c]), s.stack⟩
  | .hex isKey acc left code =>
    (hexDigit b).map fun d =>
      if left ≤ 1 then ⟨.str isKey (acc ++ utf8 (16 * code + d)), s.stack⟩
      else ⟨.hex isKey acc (left - 1) (16 * code + d), s.stack⟩
  | .num phase acc =>
    match phase.next b with
    | some phase' => some ⟨.num phase' (acc ++ [b]), s.stack⟩
    | none => if phase.complete then afterValue (deliver (.num acc) s.stack) b else none
  | .word w read =>
    if w.text[read]? = some b then
      some (if read + 1 = w.text.length then deliver w.json s.stack
        else ⟨.word w (read + 1), s.stack⟩)
    else none

def run (s : State) (text : List UInt8) : Option State := text.foldlM step s

/-- The value a text ends with. -/
def State.result (s : State) : Option Json :=
  match s.mode with
  | .done v => some v
  | .num phase acc => if phase.complete ∧ s.stack.length = 0 then some (.num acc) else none
  | _ => none

/-- The value of a JSON text; `none` for a text that is not JSON. -/
def parse (text : List UInt8) : Option Json := (run State.start text).bind State.result

/-- The value of the first member with this key; `none` when there is none, or no object. -/
def Json.get? (k : List UInt8) : Json → Option Json
  | .obj ms => (ms.find? fun m => m.1 = k).map Prod.snd
  | _ => none

/-- An integer literal. -/
def Json.int? : Json → Option Int
  | .num (b :: bs) =>
    if b = 45 then
      if bs ≠ [] ∧ bs.all isDigit then some (-(value bs : Int)) else none
    else if (b :: bs).all isDigit then some (value (b :: bs) : Int) else none
  | _ => none

/-! ## Runs over pieces of text -/

@[simp] theorem run_nil (s : State) : run s [] = some s := rfl

theorem run_cons (s : State) (b : UInt8) (bs : List UInt8) :
    run s (b :: bs) = (step s b).bind fun t => run t bs := by
  unfold run
  rw [List.foldlM_cons]
  rfl

theorem run_append (s : State) (xs ys : List UInt8) :
    run s (xs ++ ys) = (run s xs).bind fun t => run t ys := by
  unfold run
  rw [List.foldlM_append]
  rfl

/-- A byte that stands for itself in a string. -/
def isPlain (b : UInt8) : Bool := b ≠ 34 && b ≠ 92 && 32 ≤ b

theorem step_plain {b : UInt8} (h : isPlain b = true) (isKey : Bool) (acc : List UInt8)
    (st : List Frame) :
    step ⟨.str isKey acc, st⟩ b = some ⟨.str isKey (acc ++ [b]), st⟩ := by
  simp only [isPlain, ne_eq, Bool.and_eq_true, decide_eq_true_eq] at h
  have hge : ¬ b < 32 := UInt8.not_lt.mpr h.2
  simp only [step, h.1.1, h.1.2, hge, if_false]

/-- **Plain bytes stand for themselves.** -/
theorem run_plain (isKey : Bool) (st : List Frame) : ∀ (bs acc : List UInt8),
    bs.all isPlain = true →
    run ⟨.str isKey acc, st⟩ bs = some ⟨.str isKey (acc ++ bs), st⟩
  | [], acc, _ => by rw [run_nil, List.append_nil]
  | b :: bs, acc, h => by
    rw [List.all_cons, Bool.and_eq_true] at h
    rw [run_cons, step_plain h.1, Option.bind_some, run_plain isKey st bs _ h.2,
      List.append_assoc, List.singleton_append]

/-- The text `"key": ` with a space in front. -/
def keyText (k : List UInt8) : List UInt8 := [32, 34] ++ k ++ [34, 58, 32]

/-- **A key**: the object now waits for its value. -/
theorem run_key {m : Mode} (hm : m = .objStart ∨ m = .key) {k : List UInt8}
    (hk : k.all isPlain = true) (ms : Members) (k₀ : List UInt8) (st : List Frame) :
    run ⟨m, .obj ms k₀ :: st⟩ (keyText k) = some ⟨.value, .obj ms k :: st⟩ := by
  have hopen : run ⟨m, .obj ms k₀ :: st⟩ [32, 34] = some ⟨.str true [], .obj ms k₀ :: st⟩ := by
    rcases hm with rfl | rfl <;> rfl
  rw [keyText, run_append, run_append, hopen, Option.bind_some, run_plain true _ k [] hk,
    Option.bind_some]
  rfl

/-- A byte that ends a number. -/
def endsNumber (b : UInt8) : Bool := b == 44 || b == 32

theorem Phase.next_of_endsNumber {b : UInt8} (h : endsNumber b = true) (phase : Phase) :
    phase.next b = none := by
  simp only [endsNumber, Bool.or_eq_true, beq_iff_eq] at h
  rcases h with rfl | rfl <;> cases phase <;> rfl

theorem run_digits (st : List Frame) : ∀ (ds acc : List UInt8), ds.all isDigit = true →
    run ⟨.num .int acc, st⟩ ds = some ⟨.num .int (acc ++ ds), st⟩
  | [], acc, _ => by rw [run_nil, List.append_nil]
  | d :: ds, acc, h => by
    rw [List.all_cons, Bool.and_eq_true] at h
    have hstep : step ⟨.num .int acc, st⟩ d = some ⟨.num .int (acc ++ [d]), st⟩ := by
      simp only [step, Phase.next, h.1, if_true]
    rw [run_cons, hstep, Option.bind_some, run_digits st ds _ h.2, List.append_assoc,
      List.singleton_append]

theorem digit_cases {b : UInt8} (h : isDigit b = true) :
    b = 48 ∨ b = 49 ∨ b = 50 ∨ b = 51 ∨ b = 52 ∨ b = 53 ∨ b = 54 ∨ b = 55 ∨ b = 56 ∨ b = 57 := by
  simp only [isDigit, Bool.and_eq_true, decide_eq_true_eq, UInt8.le_iff_toNat_le] at h
  obtain ⟨h1, h2⟩ := h
  have h1 : 48 ≤ b.toNat := h1
  have h2 : b.toNat ≤ 57 := h2
  simp only [← UInt8.toNat_inj]
  show b.toNat = 48 ∨ b.toNat = 49 ∨ b.toNat = 50 ∨ b.toNat = 51 ∨ b.toNat = 52 ∨ b.toNat = 53 ∨
    b.toNat = 54 ∨ b.toNat = 55 ∨ b.toNat = 56 ∨ b.toNat = 57
  omega

/-- The first digit of a number without leading zeros. -/
theorem startValue_digit {b : UInt8} (h : isDigit b = true) (h0 : b ≠ 48) (st : List Frame) :
    step ⟨.value, st⟩ b = some ⟨.num .int [b], st⟩ ∧
      step ⟨.num .minus [45], st⟩ b = some ⟨.num .int [45, b], st⟩ := by
  rcases digit_cases h with rfl | rfl | rfl | rfl | rfl | rfl | rfl | rfl | rfl | rfl
  · exact absurd rfl h0
  all_goals exact ⟨rfl, rfl⟩

theorem run_decimal_aux {n : Nat} (h : 0 < n) (st : List Frame) :
    run ⟨.value, st⟩ (decimal n) = some ⟨.num .int (decimal n), st⟩ ∧
      run ⟨.num .minus [45], st⟩ (decimal n) = some ⟨.num .int (45 :: decimal n), st⟩ := by
  have hhead := decimal_head h
  have hdigits : ∀ b ∈ decimal n, isDigit b = true := fun _ => isDigit_of_mem_decimal
  cases hd : decimal n with
  | nil => exact absurd hd (decimal_ne_nil n)
  | cons b bs =>
    rw [hd, List.head?_cons] at hhead
    rw [hd] at hdigits
    obtain ⟨hv, hm⟩ := startValue_digit (hdigits b List.mem_cons_self)
      (fun h0 => hhead (by rw [h0])) st
    have hbs : bs.all isDigit = true :=
      List.all_eq_true.mpr fun x hx => hdigits x (List.mem_cons_of_mem b hx)
    constructor
    · rw [run_cons, hv, Option.bind_some, run_digits st bs _ hbs]
      rfl
    · rw [run_cons, hm, Option.bind_some, run_digits st bs _ hbs]
      rfl

theorem run_integer_aux (i : Int) (st : List Frame) : ∃ phase : Phase, phase.complete = true ∧
    run ⟨.value, st⟩ (integer i) = some ⟨.num phase (integer i), st⟩ := by
  unfold integer
  split
  · rename_i hneg
    refine ⟨.int, rfl, ?_⟩
    rw [run_cons]
    exact (run_decimal_aux (by omega) st).2
  · rcases Nat.eq_zero_or_pos i.natAbs with h0 | hpos
    · refine ⟨.zero, rfl, ?_⟩
      rw [h0]
      rfl
    · exact ⟨.int, rfl, (run_decimal_aux hpos st).1⟩

/-- **A number** that is followed by a comma or a space. -/
theorem run_integer (i : Int) {b : UInt8} (hb : endsNumber b = true) (rest : List UInt8)
    (st : List Frame) : run ⟨.value, st⟩ (integer i ++ b :: rest) =
      (afterValue (deliver (.num (integer i)) st) b).bind fun s => run s rest := by
  obtain ⟨phase, hphase, hrun⟩ := run_integer_aux i st
  have hstep : step ⟨.num phase (integer i), st⟩ b =
      afterValue (deliver (.num (integer i)) st) b := by
    simp only [step, Phase.next_of_endsNumber hb, hphase, if_true]
  rw [run_append, hrun, Option.bind_some, run_cons, hstep]

/-- Reading back an integer literal. -/
theorem int?_integer (i : Int) : (Json.num (integer i)).int? = some i := by
  have hall : ∀ n : Nat, (decimal n).all isDigit = true := fun n =>
    List.all_eq_true.mpr fun _ => isDigit_of_mem_decimal
  unfold integer
  split
  · simp only [Json.int?, if_true, hall, decimal_ne_nil, ne_eq, not_false_eq_true, and_self,
      value_decimal, Option.some.injEq]
    omega
  · cases hd : decimal i.natAbs with
    | nil => exact absurd hd (decimal_ne_nil _)
    | cons b bs =>
      have hdigits := hall i.natAbs
      have hvalue := value_decimal i.natAbs
      rw [hd] at hdigits hvalue
      have hb : b ≠ 45 := by
        rintro rfl
        rw [List.all_cons, Bool.and_eq_true] at hdigits
        exact absurd hdigits.1 (by decide)
      simp only [Json.int?, hb, if_false, hdigits, if_true, hvalue, Option.some.injEq]
      omega

end Lib.Json
