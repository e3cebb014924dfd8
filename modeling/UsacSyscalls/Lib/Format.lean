import Mathlib.Data.List.DropRight
import UsacSyscalls.Lib.Decimal

/-!
# Format strings

`printf` and `scanf` for formats made of literal text and the conversions `%lu`, `%d`, `%s` and
`%%`.

* `printf_length_le`, `zero_not_mem_printf`, `printf_of_shape` — what the format says about the
  text.
* `scanf_lits` — text that was printed from a literal is matched by the same literal: white
  space matches any run of white space, every other character itself.
* `scanf_decimal` — `%lu` reads back what `%lu` printed.
* `scanf_mismatch` — the scan stops at the first character that does not match, and leaves the
  remaining variables as they were.
-/

set_option autoImplicit false

namespace Lib.Format

open Lib.Decimal

inductive Directive where
  | lit (b : UInt8)
  | lu
  | d
  | s
  deriving DecidableEq, Repr

/-- The bytes of an ASCII literal. -/
def bytes (text : String) : List UInt8 := text.toList.map fun c => c.toNat.toUInt8

def parseChars : List Char → List Directive
  | [] => []
  | '%' :: 'l' :: 'u' :: cs => .lu :: parseChars cs
  | '%' :: 'd' :: cs => .d :: parseChars cs
  | '%' :: 's' :: cs => .s :: parseChars cs
  | '%' :: '%' :: cs => .lit 37 :: parseChars cs
  | c :: cs => .lit c.toNat.toUInt8 :: parseChars cs

/-- A format as it is written in the source. -/
def format (text : String) : List Directive := parseChars text.toList

/-- The directives of a literal. -/
def lits (text : String) : List Directive := (bytes text).map .lit

inductive Arg where
  | lu (n : UInt64)
  | d (n : Int32)
  | s (text : List UInt8)
  deriving DecidableEq, Repr

/-- The text that is printed.  A conversion without an argument of its type is undefined in C and
    prints nothing here. -/
def printf : List Directive → List Arg → List UInt8
  | [], _ => []
  | .lit b :: ds, as => b :: printf ds as
  | .lu :: ds, .lu n :: as => decimal n.toNat ++ printf ds as
  | .d :: ds, .d n :: as => integer n.toInt ++ printf ds as
  | .s :: ds, .s text :: as => text ++ printf ds as
  | .lu :: _, _ => []
  | .d :: _, _ => []
  | .s :: _, _ => []

def isSpace (b : UInt8) : Bool := b == 32 || (9 ≤ b && b ≤ 13)

def ULONG_MAX : UInt64 := 18446744073709551615

/-- `strtoul` in base 10 on a matched item: digits, and whether a minus sign preceded them. -/
def strtoul (negative : Bool) (ds : List UInt8) : UInt64 :=
  if value ds < 2 ^ 64 then
    if negative then -(value ds).toUInt64 else (value ds).toUInt64
  else ULONG_MAX

/-- An optional sign. -/
def scanSign : List UInt8 → Bool × List UInt8
  | [] => (false, [])
  | b :: bs => if b = 45 then (true, bs) else if b = 43 then (false, bs) else (false, b :: bs)

/-- The conversion `%lu`: white space, an optional sign and digits; `none` when there is no
    digit. -/
def scanUnsigned (input : List UInt8) : Option (UInt64 × List UInt8) :=
  let (negative, body) := scanSign (input.dropWhile isSpace)
  let ds := body.takeWhile isDigit
  if ds = [] then none else some (strtoul negative ds, body.dropWhile isDigit)

/-- The variables after `sscanf(input, format, &v₀, &v₁, ..)`; those that the scan does not reach
    keep their values.  Only `%lu` has a variable of its type here; other conversions end the
    scan. -/
def scanf : List Directive → List UInt8 → List UInt64 → List UInt64
  | [], _, vars => vars
  | .lit b :: ds, input, vars =>
    if isSpace b then scanf ds (input.dropWhile isSpace) vars
    else
      match input with
      | [] => vars
      | c :: rest => if c = b then scanf ds rest vars else vars
  | .lu :: ds, input, v :: vars =>
    match scanUnsigned input with
    | none => v :: vars
    | some (n, rest) => n :: scanf ds rest vars
  | .lu :: _, _, [] => []
  | .d :: _, _, vars => vars
  | .s :: _, _, vars => vars

/-! ## The printed text -/

theorem printf_lits (text : String) (ds : List Directive) (as : List Arg) :
    printf (lits text ++ ds) as = bytes text ++ printf ds as := by
  unfold lits
  induction bytes text with
  | nil => rfl
  | cons b bs ih =>
    simp only [List.map_cons, List.cons_append, printf, ih]

/-- The most characters a directive prints, when no string argument is longer than `w`. -/
def Directive.width (w : Nat) : Directive → Nat
  | .lit _ => 1
  | .lu => 20
  | .d => 11
  | .s => w

/-- **A bound on the length of the text** from the format alone. -/
theorem printf_length_le (w : Nat) : ∀ (ds : List Directive) (as : List Arg),
    (∀ text, .s text ∈ as → text.length ≤ w) →
    (printf ds as).length ≤ (ds.map (Directive.width w)).sum
  | [], _, _ => Nat.le_refl 0
  | .lit b :: ds, as, h => by
    have := printf_length_le w ds as h
    simp only [printf, Directive.width, List.length_cons, List.map_cons, List.sum_cons]
    omega
  | .lu :: ds, .lu n :: as, h => by
    have := printf_length_le w ds as fun text ht => h text (List.mem_cons_of_mem _ ht)
    have := decimal_length_uint64 n
    simp only [printf, Directive.width, List.length_append, List.map_cons, List.sum_cons]
    omega
  | .d :: ds, .d n :: as, h => by
    have := printf_length_le w ds as fun text ht => h text (List.mem_cons_of_mem _ ht)
    have := integer_length_int32 n
    simp only [printf, Directive.width, List.length_append, List.map_cons, List.sum_cons]
    omega
  | .s :: ds, .s text :: as, h => by
    have := printf_length_le w ds as fun text ht => h text (List.mem_cons_of_mem _ ht)
    have := h text List.mem_cons_self
    simp only [printf, Directive.width, List.length_append, List.map_cons, List.sum_cons]
    omega
  | .lu :: _, [], _ | .lu :: _, .d _ :: _, _ | .lu :: _, .s _ :: _, _ => Nat.zero_le _
  | .d :: _, [], _ | .d :: _, .lu _ :: _, _ | .d :: _, .s _ :: _, _ => Nat.zero_le _
  | .s :: _, [], _ | .s :: _, .lu _ :: _, _ | .s :: _, .d _ :: _, _ => Nat.zero_le _

theorem zero_not_mem_decimal (n : Nat) : (0 : UInt8) ∉ decimal n := fun h =>
  absurd (isDigit_of_mem_decimal h) (by decide)

theorem zero_not_mem_integer (i : Int) : (0 : UInt8) ∉ integer i := by
  unfold integer
  split
  · rw [List.mem_cons, not_or]
    exact ⟨by decide, zero_not_mem_decimal _⟩
  · exact zero_not_mem_decimal _

/-- A text printed from a format and strings without a NUL has none. -/
theorem zero_not_mem_printf : ∀ (ds : List Directive) (as : List Arg), .lit 0 ∉ ds →
    (∀ text, .s text ∈ as → (0 : UInt8) ∉ text) → (0 : UInt8) ∉ printf ds as
  | [], _, _, _ => List.not_mem_nil
  | .lit b :: ds, as, hd, h => by
    rw [List.mem_cons, not_or] at hd
    rw [printf, List.mem_cons, not_or]
    exact ⟨fun h0 => hd.1 (by rw [h0]), zero_not_mem_printf ds as hd.2 h⟩
  | .lu :: ds, .lu n :: as, hd, h => by
    rw [printf, List.mem_append, not_or]
    exact ⟨zero_not_mem_decimal _, zero_not_mem_printf ds as
      (fun h0 => hd (List.mem_cons_of_mem _ h0)) fun text ht => h text (List.mem_cons_of_mem _ ht)⟩
  | .d :: ds, .d n :: as, hd, h => by
    rw [printf, List.mem_append, not_or]
    exact ⟨zero_not_mem_integer _, zero_not_mem_printf ds as
      (fun h0 => hd (List.mem_cons_of_mem _ h0)) fun text ht => h text (List.mem_cons_of_mem _ ht)⟩
  | .s :: ds, .s text :: as, hd, h => by
    rw [printf, List.mem_append, not_or]
    exact ⟨h text List.mem_cons_self, zero_not_mem_printf ds as
      (fun h0 => hd (List.mem_cons_of_mem _ h0)) fun text ht => h text (List.mem_cons_of_mem _ ht)⟩
  | .lu :: _, [], _, _ | .lu :: _, .d _ :: _, _, _ | .lu :: _, .s _ :: _, _, _ => List.not_mem_nil
  | .d :: _, [], _, _ | .d :: _, .lu _ :: _, _, _ | .d :: _, .s _ :: _, _, _ => List.not_mem_nil
  | .s :: _, [], _, _ | .s :: _, .lu _ :: _, _, _ | .s :: _, .d _ :: _, _, _ => List.not_mem_nil

/-- The number of conversions and of literal characters of a format in which every conversion is
    `%lu` and no character is NUL. -/
def shape : List Directive → Option (Nat × Nat)
  | [] => some (0, 0)
  | .lu :: ds => (shape ds).map fun nl => (nl.1 + 1, nl.2)
  | .lit b :: ds => if b = 0 then none else (shape ds).map fun nl => (nl.1, nl.2 + 1)
  | .d :: _ => none
  | .s :: _ => none

/-- The total number of digits of some numbers. -/
def digits (ns : List UInt64) : Nat := (ns.map fun n => (decimal n.toNat).length).sum

theorem digits_le (ns : List UInt64) : digits ns ≤ 20 * ns.length := by
  induction ns with
  | nil => exact Nat.le_refl 0
  | cons n ns ih =>
    have := decimal_length_uint64 n
    simp only [digits, List.map_cons, List.sum_cons, List.length_cons] at ih ⊢
    omega

/-- **The text of a `%lu` format**: its length, and that it is one C string. -/
theorem printf_of_shape : ∀ {ds : List Directive} {ns : List UInt64} {l : Nat},
    shape ds = some (ns.length, l) →
    (printf ds (ns.map .lu)).length = l + digits ns ∧ (0 : UInt8) ∉ printf ds (ns.map .lu)
  | [], ns, l, h => by
    simp only [shape, Option.some.injEq, Prod.mk.injEq] at h
    obtain ⟨hn, rfl⟩ := h
    rw [List.length_eq_zero_iff.mp hn.symm]
    exact ⟨rfl, List.not_mem_nil⟩
  | .lu :: ds, [], l, h => by
    obtain ⟨⟨n, l'⟩, -, he⟩ := Option.map_eq_some_iff.mp h
    simp at he
  | .lu :: ds, n :: ns, l, h => by
    obtain ⟨⟨m, l'⟩, hs, he⟩ := Option.map_eq_some_iff.mp h
    simp only [List.length_cons, Prod.mk.injEq, Nat.add_right_cancel_iff] at he
    obtain ⟨rfl, rfl⟩ := he
    obtain ⟨hlen, hnul⟩ := printf_of_shape hs
    constructor
    · simp only [List.map_cons, printf, List.length_append, hlen, digits, List.sum_cons]
      omega
    · rw [List.map_cons, printf, List.mem_append, not_or]
      exact ⟨zero_not_mem_decimal _, hnul⟩
  | .lit b :: ds, ns, l, h => by
    simp only [shape] at h
    split at h
    · cases h
    · rename_i hb
      obtain ⟨⟨m, l'⟩, hs, he⟩ := Option.map_eq_some_iff.mp h
      simp only [Prod.mk.injEq] at he
      obtain ⟨rfl, rfl⟩ := he
      obtain ⟨hlen, hnul⟩ := printf_of_shape hs
      constructor
      · simp only [printf, List.length_cons, hlen]
        omega
      · rw [printf, List.mem_cons, not_or]
        exact ⟨fun h0 => hb h0.symm, hnul⟩
  | .d :: _, _, _, h => by cases h
  | .s :: _, _, _, h => by cases h

/-! ## What printf prints, scanf reads -/

/-- The input does not start with white space. -/
def NoSpace (input : List UInt8) : Prop := ∀ b, input.head? = some b → isSpace b = false

theorem NoSpace.dropWhile {input : List UInt8} (h : NoSpace input) :
    input.dropWhile isSpace = input := by
  cases input with
  | nil => rfl
  | cons b bs => rw [List.dropWhile_cons_of_neg (by simp [h b rfl])]

theorem dropWhile_append_noSpace (bs : List UInt8) {rest : List UInt8} (h : NoSpace rest) :
    (bs ++ rest).dropWhile isSpace = bs.dropWhile isSpace ++ rest := by
  induction bs with
  | nil => exact h.dropWhile
  | cons b bs ih =>
    rw [List.cons_append, List.dropWhile_cons, List.dropWhile_cons]
    split
    · exact ih
    · rfl

/-- **A literal matches its own text**, also when the white space in front of it has already been
    skipped. -/
theorem scanf_literal_aux (bs : List UInt8) (ds : List Directive) {rest : List UInt8}
    (h : NoSpace rest) (vars : List UInt64) :
    scanf (bs.map .lit ++ ds) (bs ++ rest) vars = scanf ds rest vars ∧
      scanf (bs.map .lit ++ ds) (bs.dropWhile isSpace ++ rest) vars = scanf ds rest vars := by
  induction bs with
  | nil => exact ⟨rfl, rfl⟩
  | cons b bs ih =>
    rw [List.map_cons, List.cons_append, List.cons_append]
    by_cases hb : isSpace b = true
    · have hskip : (b :: (bs ++ rest)).dropWhile isSpace = bs.dropWhile isSpace ++ rest := by
        rw [List.dropWhile_cons_of_pos hb, dropWhile_append_noSpace bs h]
      have hagain : (bs.dropWhile isSpace ++ rest).dropWhile isSpace =
          bs.dropWhile isSpace ++ rest := by
        rw [dropWhile_append_noSpace _ h, List.dropWhile_idempotent]
      constructor
      · simp only [scanf, hb, if_true, hskip]
        exact ih.2
      · rw [List.dropWhile_cons_of_pos hb]
        simp only [scanf, hb, if_true, hagain]
        exact ih.2
    · rw [List.dropWhile_cons_of_neg hb, List.cons_append]
      simp only [scanf, hb, if_true]
      exact ⟨ih.1, ih.1⟩

theorem scanf_lits (text : String) (ds : List Directive) {rest : List UInt8}
    (h : NoSpace rest) (vars : List UInt64) :
    scanf (lits text ++ ds) (bytes text ++ rest) vars = scanf ds rest vars :=
  (scanf_literal_aux (bytes text) ds h vars).1

theorem not_isSpace_of_isDigit {b : UInt8} (h : isDigit b = true) : isSpace b = false := by
  simp only [isDigit, Bool.and_eq_true, decide_eq_true_eq, UInt8.le_iff_toNat_le] at h
  obtain ⟨h1, h2⟩ := h
  have h48 : (48 : UInt8).toNat = 48 := rfl
  have h13 : (13 : UInt8).toNat = 13 := rfl
  have hne : b ≠ 32 := by
    rintro rfl
    revert h1
    decide
  have hgt : ¬ b ≤ 13 := by rw [UInt8.le_iff_toNat_le]; omega
  simp [isSpace, hne, hgt]

/-- The input does not start with a digit. -/
def NoDigit (input : List UInt8) : Prop := ∀ b, input.head? = some b → isDigit b = false

theorem noDigit_append {bs : List UInt8} {b : UInt8} (hb : bs.head? = some b)
    (h : isDigit b = false) (rest : List UInt8) : NoDigit (bs ++ rest) := by
  intro c hc
  rw [List.head?_append_of_ne_nil bs (by rintro rfl; cases hb), hb, Option.some.injEq] at hc
  subst hc
  exact h

theorem noSpace_append {bs : List UInt8} {b : UInt8} (hb : bs.head? = some b)
    (h : isSpace b = false) (rest : List UInt8) : NoSpace (bs ++ rest) := by
  intro c hc
  rw [List.head?_append_of_ne_nil bs (by rintro rfl; cases hb), hb, Option.some.injEq] at hc
  subst hc
  exact h

theorem span_digits {ds rest : List UInt8} (hds : ∀ b ∈ ds, isDigit b = true) (h : NoDigit rest) :
    (ds ++ rest).takeWhile isDigit = ds ∧ (ds ++ rest).dropWhile isDigit = rest := by
  have hrest : rest.takeWhile isDigit = [] ∧ rest.dropWhile isDigit = rest := by
    cases rest with
    | nil => exact ⟨rfl, rfl⟩
    | cons b bs =>
      have hb : ¬ isDigit b = true := by simp [h b rfl]
      exact ⟨List.takeWhile_cons_of_neg hb, List.dropWhile_cons_of_neg hb⟩
  rw [List.takeWhile_append_of_pos hds, List.dropWhile_append_of_pos hds, hrest.1, hrest.2]
  exact ⟨List.append_nil ds, rfl⟩

theorem scanSign_digits {ds rest : List UInt8} (hne : ds ≠ []) (hds : ∀ b ∈ ds, isDigit b = true) :
    scanSign (ds ++ rest) = (false, ds ++ rest) := by
  cases ds with
  | nil => exact absurd rfl hne
  | cons b bs =>
    have hb := hds b List.mem_cons_self
    have h45 : b ≠ 45 := by rintro rfl; revert hb; decide
    have h43 : b ≠ 43 := by rintro rfl; revert hb; decide
    simp only [List.cons_append, scanSign, h45, h43, if_false]

theorem noSpace_digits {ds : List UInt8} (hne : ds ≠ []) (hds : ∀ b ∈ ds, isDigit b = true)
    (rest : List UInt8) : NoSpace (ds ++ rest) := by
  cases ds with
  | nil => exact absurd rfl hne
  | cons b bs =>
    intro c hc
    rw [List.cons_append, List.head?_cons, Option.some.injEq] at hc
    subst hc
    exact not_isSpace_of_isDigit (hds _ List.mem_cons_self)

theorem noSpace_decimal (n : Nat) (rest : List UInt8) : NoSpace (decimal n ++ rest) :=
  noSpace_digits (decimal_ne_nil n) (fun _ h => isDigit_of_mem_decimal h) rest

theorem scanUnsigned_decimal (n : UInt64) {rest : List UInt8} (h : NoDigit rest) :
    scanUnsigned (decimal n.toNat ++ rest) = some (n, rest) := by
  have hne := decimal_ne_nil n.toNat
  have hds : ∀ b ∈ decimal n.toNat, isDigit b = true := fun _ => isDigit_of_mem_decimal
  obtain ⟨htake, hdrop⟩ := span_digits hds h
  unfold scanUnsigned
  rw [(noSpace_decimal n.toNat rest).dropWhile, scanSign_digits hne hds]
  simp only [htake, hdrop, hne, if_false, Option.some.injEq, Prod.mk.injEq, and_true]
  unfold strtoul
  rw [value_decimal, if_pos n.toNat_lt]
  exact UInt64.ofNat_toNat

/-- **`%lu` reads back what `%lu` printed.** -/
theorem scanf_decimal (ds : List Directive) (n v : UInt64) {rest : List UInt8} (h : NoDigit rest)
    (vars : List UInt64) :
    scanf (.lu :: ds) (decimal n.toNat ++ rest) (v :: vars) = n :: scanf ds rest vars := by
  simp only [scanf, scanUnsigned_decimal n h]

/-- The scan stops at a character that does not match. -/
theorem scanf_mismatch {b c : UInt8} (ds : List Directive) (hb : isSpace b = false) (hne : c ≠ b)
    (rest : List UInt8) (vars : List UInt64) : scanf (.lit b :: ds) (c :: rest) vars = vars := by
  simp [scanf, hb, hne]

/-! ## Formats of numbers between literals -/

/-- A format that starts with the literal `s` and goes on with a `%lu` and a literal for each of
    the others. -/
def luFormat (s : String) : List String → List Directive
  | [] => lits s
  | t :: ts => lits s ++ .lu :: luFormat t ts

/-- A literal that ends the number in front of it. -/
def EndsNumber (t : String) : Prop := ∃ b, (bytes t).head? = some b ∧ isDigit b = false

theorem EndsNumber.noDigit {t : String} (h : EndsNumber t) (rest : List UInt8) :
    NoDigit (bytes t ++ rest) := by
  obtain ⟨b, hb, hdigit⟩ := h
  exact noDigit_append hb hdigit rest

theorem scanf_no_vars (ds : List Directive) (input : List UInt8) : scanf ds input [] = [] := by
  induction ds generalizing input with
  | nil => rfl
  | cons dir ds ih =>
    cases dir with
    | lit b =>
      simp only [scanf]
      split
      · exact ih _
      · split
        · rfl
        · split
          · exact ih _
          · rfl
    | lu => rfl
    | d => rfl
    | s => rfl

theorem printf_luFormat (s : String) (ts : List String) (ns : List UInt64) :
    ∃ rest, printf (luFormat s ts) (ns.map .lu) = bytes s ++ rest := by
  cases ts with
  | nil =>
    refine ⟨printf [] (ns.map .lu), ?_⟩
    rw [← printf_lits, List.append_nil]
    rfl
  | cons t ts => exact ⟨_, printf_lits s _ _⟩

/-- **What a format prints, the same format reads back**: every variable is assigned, whatever it
    contained and whatever the scan expects after the last number. -/
theorem scanf_printf_luFormat {t u : String} (ht : EndsNumber t) : ∀ (s : String)
    (ts : List String) (ns vars : List UInt64), (∀ x ∈ ts, EndsNumber x) →
    ns.length = ts.length + 1 → vars.length = ts.length + 1 →
      scanf (luFormat s (ts ++ [u])) (printf (luFormat s (ts ++ [t])) (ns.map .lu)) vars = ns
  | s, ts, [], vars, _, hns, _ => by simp at hns
  | s, ts, n :: ns, [], _, _, hvars => by simp at hvars
  | s, [], n :: ns, v :: vars, _, hns, hvars => by
    have hns : ns = [] := List.length_eq_zero_iff.mp (by simpa using hns)
    have hvars : vars = [] := List.length_eq_zero_iff.mp (by simpa using hvars)
    subst hns
    subst hvars
    obtain ⟨rest, hrest⟩ := printf_luFormat t [] []
    simp only [List.nil_append, luFormat, List.map_cons, List.map_nil, printf_lits, printf]
    simp only [luFormat, List.map_nil] at hrest
    rw [scanf_lits _ _ (noSpace_decimal _ _), hrest, scanf_decimal _ _ _ (ht.noDigit rest),
      scanf_no_vars]
  | s, x :: ts, n :: ns, v :: vars, hts, hns, hvars => by
    have ih := scanf_printf_luFormat (u := u) ht x ts ns vars
      (fun y hy => hts y (List.mem_cons_of_mem _ hy)) (by simpa using hns) (by simpa using hvars)
    obtain ⟨rest, hrest⟩ := printf_luFormat x (ts ++ [t]) ns
    have hx := (hts x List.mem_cons_self).noDigit rest
    rw [← hrest] at hx
    simp only [List.cons_append, luFormat, List.map_cons, printf_lits, printf]
    rw [scanf_lits _ _ (noSpace_decimal _ _), scanf_decimal _ _ _ hx, ih]

end Lib.Format
