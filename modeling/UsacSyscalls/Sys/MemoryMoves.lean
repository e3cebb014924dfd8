import UsacSyscalls.Lib.Run
import UsacSyscalls.Sys.MemoryMap

/-!
# Setting the addresses one after the other

`PR_SET_MM_MAP` sets all addresses of a process in one call, without a capability; with
`CAP_SYS_RESOURCE` they can be set one by one, but then the addresses have to pass the checks after
every single call.

* `Fine` — the checks in numbers; `validatePrctlMapAddr_eq_none_iff`.
* `moves_place` — a segment without a limit takes two calls, of which one may come first.
* `moves_shift` — data and heap count together against `RLIMIT_DATA`: empty, they are moved byte by
  byte.
* `field_by_field_iff` — exactly when the addresses that `PR_SET_MM_MAP` sets at once can be set one
  after the other, by a process whose own addresses pass the checks and to which the kernel answers
  the same in all calls.
-/

set_option autoImplicit false

namespace UsacSyscalls.Sys.MemoryMap

open Lib.Run Limits

/-! ## The checks in numbers -/

section Moves

variable {File : Type} {pairs : Nat} {k : Answers File} {mm mm' : Mm File}

/-- `check_data_rlimit`: the data and the heap are not larger together than the limit, if there is
    one. -/
def DataRlimit (k : Answers File) : Prop :=
  ∀ rlim new start endData startData, k.checkDataRlimit rlim new start endData startData = true ↔
    rlim < RLIM_INFINITY ∧ new - start + (endData - startData) > rlim

/-- What `validate_prctl_map_addr` asks of the addresses, in numbers. -/
structure Fine (k : Answers File) (m : Addrs) : Prop where
  range : ∀ f, k.mmapMinAddr.toNat ≤ (m f).toNat ∧ (m f).toNat < k.taskSize.toNat
  code : (m .startCode).toNat < (m .endCode).toNat
  data : (m .startData).toNat ≤ (m .endData).toNat
  brk : (m .startBrk).toNat ≤ (m .brk).toNat
  arg : (m .argStart).toNat ≤ (m .argEnd).toNat
  env : (m .envStart).toNat ≤ (m .envEnd).toNat
  limit : ((m .brk).toNat - (m .startBrk).toNat) + ((m .endData).toNat - (m .startData).toNat) ≤
    k.rlimitData.toNat

theorem mem_offsets (f : Field) : f ∈ offsets := by cases f <;> decide

theorem validatePrctlMapAddr_eq_none_iff (hlimit : DataRlimit k) (htop : k.taskSize.toNat ≤ 2 ^ 63)
    {m : Addrs} : validatePrctlMapAddr k m = none ↔ Fine k m := by
  have hrange : (∃ f ∈ offsets, m f ≥ k.taskSize ∨ m f < k.mmapMinAddr) ↔
      ¬ ∀ f, k.mmapMinAddr.toNat ≤ (m f).toNat ∧ (m f).toNat < k.taskSize.toNat := by
    push Not
    constructor
    · rintro ⟨f, -, hf⟩
      refine ⟨f, fun hmin => ?_⟩
      rcases hf with hf | hf
      · exact UInt64.le_iff_toNat_le.mp hf
      · exact absurd (UInt64.lt_iff_toNat_lt.mp hf) (by omega)
    · rintro ⟨f, hf⟩
      refine ⟨f, mem_offsets f, ?_⟩
      by_cases hmin : k.mmapMinAddr.toNat ≤ (m f).toNat
      · exact .inl (UInt64.le_iff_toNat_le.mpr (hf hmin))
      · exact .inr (UInt64.lt_iff_toNat_lt.mpr (by omega))
  unfold validatePrctlMapAddr
  split
  · rename_i hout
    exact ⟨nofun, fun h => absurd h.range (hrange.mp hout)⟩
  rename_i hin
  rw [hrange, not_not] at hin
  split
  · rename_i horder
    refine ⟨nofun, fun h => absurd ?_ horder⟩
    simp only [UInt64.lt_iff_toNat_lt, UInt64.le_iff_toNat_le]
    exact ⟨h.code, h.data, h.brk, h.arg, h.env⟩
  rename_i horder
  rw [not_not] at horder
  obtain ⟨hcode, hdata, hbrk, harg, henv⟩ := horder
  have hsum : (m .brk - m .startBrk + (m .endData - m .startData)).toNat =
      ((m .brk).toNat - (m .startBrk).toNat) + ((m .endData).toNat - (m .startData).toNat) := by
    have hb := hin .brk
    have hd := hin .endData
    rw [UInt64.toNat_add, UInt64.toNat_sub_of_le _ _ hbrk, UInt64.toNat_sub_of_le _ _ hdata]
    refine Nat.mod_eq_of_lt ?_
    omega
  have hlimit' : k.checkDataRlimit k.rlimitData (m .brk) (m .startBrk) (m .endData) (m .startData) =
      true ↔ ¬ ((m .brk).toNat - (m .startBrk).toNat) +
        ((m .endData).toNat - (m .startData).toNat) ≤ k.rlimitData.toNat := by
    have hb := hin .brk
    have hd := hin .endData
    have hinf : RLIM_INFINITY.toNat = 2 ^ 64 - 1 := rfl
    rw [hlimit, gt_iff_lt, UInt64.lt_iff_toNat_lt, UInt64.lt_iff_toNat_lt, hsum, hinf]
    omega
  rw [UInt64.lt_iff_toNat_lt] at hcode
  rw [UInt64.le_iff_toNat_le] at hdata hbrk harg henv
  split
  · rename_i hover
    exact ⟨nofun, fun h => absurd h.limit (hlimit'.mp hover)⟩
  · rename_i hwithin
    rw [hlimit', not_not] at hwithin
    exact ⟨fun _ => ⟨hin, hcode, hdata, hbrk, harg, henv, hwithin⟩, fun _ => rfl⟩

/-! ## Segments -/

/-- The parts of the map with a start and an end. -/
inductive Segment where
  | code
  | data
  | brk
  | arg
  | env
  deriving DecidableEq, Repr

def Segment.lo : Segment → Field
  | .code => .startCode
  | .data => .startData
  | .brk => .startBrk
  | .arg => .argStart
  | .env => .envStart

def Segment.hi : Segment → Field
  | .code => .endCode
  | .data => .endData
  | .brk => .brk
  | .arg => .argEnd
  | .env => .envEnd

/-- The segment placed from `x` to `y`. -/
def Segment.place (s : Segment) (m : Addrs) (x y : UInt64) : Addrs :=
  Function.update (Function.update m s.lo x) s.hi y

theorem Segment.lo_ne_hi (s : Segment) : s.lo ≠ s.hi := by cases s <;> decide

theorem Segment.update_hi (s : Segment) (m : Addrs) (x y z : UInt64) :
    Function.update (s.place m x y) s.hi z = s.place m x z := Function.update_idem ..

theorem Segment.update_lo (s : Segment) (m : Addrs) (x y z : UInt64) :
    Function.update (s.place m x y) s.lo z = s.place m z y := by
  unfold Segment.place
  rw [Function.update_comm s.lo_ne_hi.symm, Function.update_idem]

theorem Segment.place_self (s : Segment) (m : Addrs) : s.place m (m s.lo) (m s.hi) = m := by
  unfold Segment.place
  rw [Function.update_eq_self, Function.update_eq_self]

/-- The order that the code asks for. -/
def Segment.Ordered : Segment → UInt64 → UInt64 → Prop
  | .code, x, y => x.toNat < y.toNat
  | _, x, y => x.toNat ≤ y.toNat

/-- The segment from `x` to `y` leaves the limit where the others are. -/
def Segment.Fits (k : Answers File) (m : Addrs) (x y : UInt64) : Segment → Prop
  | .data => ((m .brk).toNat - (m .startBrk).toNat) + (y.toNat - x.toNat) ≤ k.rlimitData.toNat
  | .brk => (y.toNat - x.toNat) + ((m .endData).toNat - (m .startData).toNat) ≤ k.rlimitData.toNat
  | _ => True

def InRange (k : Answers File) (x : UInt64) : Prop :=
  k.mmapMinAddr.toNat ≤ x.toNat ∧ x.toNat < k.taskSize.toNat

theorem Fine.ordered {m : Addrs} (h : Fine k m) (s : Segment) : s.Ordered (m s.lo) (m s.hi) := by
  cases s
  exacts [h.code, h.data, h.brk, h.arg, h.env]

theorem Fine.fits_empty {m : Addrs} (h : Fine k m) (s : Segment) :
    s.Fits k m (m s.lo) (m s.lo) := by
  have hlimit := h.limit
  cases s with
  | data =>
    show _ + ((m .startData).toNat - (m .startData).toNat) ≤ _
    omega
  | brk =>
    show ((m .startBrk).toNat - (m .startBrk).toNat) + _ ≤ _
    omega
  | _ => trivial

theorem Fine.place {m : Addrs} (h : Fine k m) {s : Segment} {x y : UInt64} (hx : InRange k x)
    (hy : InRange k y) (hxy : s.Ordered x y) (hfits : s.Fits k m x y) : Fine k (s.place m x y) := by
  have hrange : ∀ f, InRange k (s.place m x y f) := by
    have hlo := (Function.forall_update_iff m fun _ a => InRange k a).mpr
      ⟨hx, fun f (_ : f ≠ s.lo) => h.range f⟩
    exact (Function.forall_update_iff _ fun _ a => InRange k a).mpr ⟨hy, fun f _ => hlo f⟩
  obtain ⟨-, hcode, hdata, hbrk, harg, henv, hlimit⟩ := h
  cases s <;> refine ⟨hrange, ?_, ?_, ?_, ?_, ?_, ?_⟩ <;>
    simp only [Segment.place, Segment.lo, Segment.hi, ne_eq, reduceCtorEq, not_false_eq_true,
      Function.update_self, Function.update_of_ne] <;> assumption

/-! ## One address after the other -/

/-- One address is set. -/
def Move (k : Answers File) (m m' : Addrs) : Prop :=
  ∃ f a, m' = Function.update m f a ∧ Fine k m' ∧ (f.onStack = true → k.findVma a = true)

abbrev Moves (k : Answers File) : Addrs → Addrs → Prop := Relation.ReflTransGen (Move k)

/-- There is a mapping for the address, if the segment wants one. -/
def Segment.Mapped (k : Answers File) (s : Segment) (x : UInt64) : Prop :=
  s.lo.onStack = true → k.findVma x = true

theorem Segment.onStack_hi (s : Segment) : s.hi.onStack = s.lo.onStack := by cases s <;> rfl

theorem moves_hi {s : Segment} {m : Addrs} {x y z : UInt64} (h : Fine k (s.place m x z))
    (hmap : z ≠ y → s.Mapped k z) : Moves k (s.place m x y) (s.place m x z) := by
  by_cases hz : z = y
  · rw [hz]
  · refine .single ⟨s.hi, z, (s.update_hi m x y z).symm, h, ?_⟩
    rw [s.onStack_hi]
    exact hmap hz

theorem moves_lo {s : Segment} {m : Addrs} {x y z : UInt64} (h : Fine k (s.place m z y))
    (hmap : z ≠ x → s.Mapped k z) : Moves k (s.place m x y) (s.place m z y) := by
  by_cases hz : z = x
  · rw [hz]
  · exact .single ⟨s.lo, z, (s.update_lo m x y z).symm, h, hmap hz⟩

/-- A segment that no limit counts is moved with two calls, the one that keeps it in order first. -/
theorem moves_place {s : Segment} (hs : ∀ m x y, s.Fits k m x y) {m : Addrs} (h : Fine k m)
    {x y : UInt64} (hx : InRange k x) (hy : InRange k y) (hxy : s.Ordered x y)
    (hmx : x ≠ m s.lo → s.Mapped k x) (hmy : y ≠ m s.hi → s.Mapped k y) :
    Moves k m (s.place m x y) := by
  have hend : Fine k (s.place m x y) := h.place hx hy hxy (hs m x y)
  have hm := h.ordered s
  have hstart : s.place m (m s.lo) (m s.hi) = m := s.place_self m
  by_cases hle : x.toNat ≤ (m s.lo).toNat
  · have hmid : s.Ordered x (m s.hi) := by cases s <;> unfold Segment.Ordered at * <;> omega
    have hlo := moves_lo (x := m s.lo) (h.place hx (h.range s.hi) hmid (hs m _ _)) hmx
    rw [hstart] at hlo
    exact hlo.trans (moves_hi hend hmy)
  · have hmid : s.Ordered (m s.lo) y := by cases s <;> unfold Segment.Ordered at * <;> omega
    have hhi := moves_hi (y := m s.hi) (h.place (h.range s.lo) hy hmid (hs m _ _)) hmy
    rw [hstart] at hhi
    exact hhi.trans (moves_lo hend hmx)

/-- The segment may have one byte, wherever it is. -/
def Segment.OneByte (k : Answers File) (s : Segment) (m : Addrs) : Prop :=
  ∀ {x y : UInt64}, InRange k x → InRange k y → x.toNat ≤ y.toNat → y.toNat ≤ x.toNat + 1 →
    Fine k (s.place m x y)

/-- An empty segment is moved by one byte, in either direction. -/
theorem moves_adjacent {s : Segment} {m : Addrs} (hone : s.OneByte k m) (hmap : ∀ x, s.Mapped k x)
    {x y : UInt64} (hx : InRange k x) (hy : InRange k y) (hxy : y.toNat = x.toNat + 1) :
    Moves k (s.place m x x) (s.place m y y) ∧ Moves k (s.place m y y) (s.place m x x) := by
  have hmid : Fine k (s.place m x y) := hone hx hy (by omega) (by omega)
  refine ⟨(moves_hi hmid fun _ => hmap y).trans (moves_lo ?_ fun _ => hmap y),
    (moves_lo hmid fun _ => hmap x).trans (moves_hi ?_ fun _ => hmap x)⟩
  · exact hone hy hy (by omega) (by omega)
  · exact hone hx hx (by omega) (by omega)

/-- Byte by byte, an empty segment gets everywhere. -/
theorem moves_shift {s : Segment} {m : Addrs} (hone : s.OneByte k m) (hmap : ∀ x, s.Mapped k x)
    {p q : UInt64} (hp : InRange k p) (hq : InRange k q) :
    Moves k (s.place m p p) (s.place m q q) := by
  have hup : ∀ d, ∀ {p q : UInt64}, InRange k p → InRange k q → q.toNat = p.toNat + d →
      Moves k (s.place m p p) (s.place m q q) ∧ Moves k (s.place m q q) (s.place m p p) := by
    intro d
    induction d with
    | zero =>
      intro p q _ _ hpq
      rw [UInt64.toNat_inj.mp hpq]
      exact ⟨.refl, .refl⟩
    | succ d ih =>
      intro p q hp hq hpq
      have hlt := q.toNat_lt
      have hr : (UInt64.ofNat (p.toNat + d)).toNat = p.toNat + d :=
        UInt64.toNat_ofNat_of_lt' (by simp only [UInt64.size]; omega)
      have hin : InRange k (UInt64.ofNat (p.toNat + d)) := by
        unfold InRange at *
        omega
      obtain ⟨hto, hback⟩ := ih hp hin hr
      obtain ⟨hnext, hprev⟩ := moves_adjacent hone hmap hin hq (by omega)
      exact ⟨hto.trans hnext, hprev.trans hback⟩
  by_cases hle : p.toNat ≤ q.toNat
  · exact (hup (q.toNat - p.toNat) hp hq (by omega)).1
  · exact (hup (p.toNat - q.toNat) hq hp (by omega)).2

/-! ## All addresses -/

/-- The data and the heap are empty. -/
def Empty (m : Addrs) : Prop := m .endData = m .startData ∧ m .brk = m .startBrk

theorem Fine.oneByte {m : Addrs} (h : Fine k m) (hempty : Empty m) (hlimit : 0 < k.rlimitData.toNat)
    {s : Segment} (hs : s = .data ∨ s = .brk) : s.OneByte k m := by
  intro x y hx hy hxy hone
  refine h.place hx hy ?_ ?_
  · rcases hs with rfl | rfl <;> exact hxy
  · rcases hs with rfl | rfl
    · show ((m .brk).toNat - (m .startBrk).toNat) + (y.toNat - x.toNat) ≤ _
      rw [hempty.2]
      omega
    · show (y.toNat - x.toNat) + ((m .endData).toNat - (m .startData).toNat) ≤ _
      rw [hempty.1]
      omega

theorem Moves.fine {m m' : Addrs} (h : Fine k m) (hm : Moves k m m') : Fine k m' := by
  cases hm with
  | refl => exact h
  | tail _ hlast =>
    obtain ⟨_, _, _, hfine, _⟩ := hlast
    exact hfine

/-- Only the end of a segment is set. -/
theorem moves_end {s : Segment} {m : Addrs} (h : Fine k m) {y : UInt64} (hy : InRange k y)
    (horder : s.Ordered (m s.lo) y) (hfits : s.Fits k m (m s.lo) y) (hmap : s.Mapped k y) :
    Moves k m (s.place m (m s.lo) y) := by
  have hhi := moves_hi (y := m s.hi) (h.place (h.range s.lo) hy horder hfits) fun _ => hmap
  rwa [s.place_self] at hhi

/-- The addresses that want a mapping are the same. -/
def SameStack (m m' : Addrs) : Prop := ∀ f, f.onStack = true → m' f = m f

/-- Data and heap are emptied first, where they are. -/
theorem moves_empty {m : Addrs} (h : Fine k m) :
    ∃ m', Moves k m m' ∧ Empty m' ∧ m' .startData = m .startData ∧ m' .startBrk = m .startBrk ∧
      SameStack m m' := by
  have hbrk := moves_end (s := .brk) h (h.range .startBrk) (Nat.le_refl _) (h.fits_empty .brk) nofun
  have h₁ := Moves.fine h hbrk
  have hdata := moves_end (s := .data) h₁ (h₁.range .startData) (Nat.le_refl _)
    (h₁.fits_empty .data) nofun
  refine ⟨_, hbrk.trans hdata, ⟨rfl, rfl⟩, rfl, rfl, fun f hf => ?_⟩
  cases f <;> first | rfl | cases hf

/-- Where they may have a byte, the empty data and the empty heap are moved to any starts. -/
theorem moves_starts {m : Addrs} (h : Fine k m) (hempty : Empty m) {a b : UInt64}
    (ha : InRange k a) (hb : InRange k b)
    (hfree : 0 < k.rlimitData.toNat ∨ a = m .startData ∧ b = m .startBrk) :
    Moves k m (Segment.brk.place (Segment.data.place m a a) b b) := by
  have hdata₀ : Segment.data.place m (m .startData) (m .startData) = m := by
    have hself := Segment.place_self .data m
    rwa [show m Segment.data.hi = m .startData from hempty.1] at hself
  have hbrk₀ : Segment.brk.place (Segment.data.place m a a) (m .startBrk) (m .startBrk) =
      Segment.data.place m a a := by
    have hself := Segment.place_self .brk (Segment.data.place m a a)
    rwa [show Segment.data.place m a a Segment.brk.hi = m .startBrk from hempty.2] at hself
  rcases hfree with hlimit | ⟨rfl, rfl⟩
  · have hdata := moves_shift (h.oneByte hempty hlimit (.inl rfl)) (fun _ => nofun)
      (h.range .startData) ha
    rw [hdata₀] at hdata
    have h₁ := Moves.fine h hdata
    have hempty₁ : Empty (Segment.data.place m a a) := ⟨rfl, hempty.2⟩
    have hbrk := moves_shift (h₁.oneByte hempty₁ hlimit (.inr rfl)) (fun _ => nofun)
      (h.range .startBrk) hb
    rw [hbrk₀] at hbrk
    exact hdata.trans hbrk
  · rw [hbrk₀, hdata₀]

/-- Then they get their ends. -/
theorem moves_ends {m : Addrs} (h : Fine k m) (hempty : Empty m) {x y : UInt64} (hx : InRange k x)
    (hy : InRange k y) (hdata : (m .startData).toNat ≤ x.toNat)
    (hbrk : (m .startBrk).toNat ≤ y.toNat)
    (hlimit : (y.toNat - (m .startBrk).toNat) + (x.toNat - (m .startData).toNat) ≤
      k.rlimitData.toNat) :
    Moves k m (Segment.data.place (Segment.brk.place m (m .startBrk) y) (m .startData) x) := by
  have hfits : Segment.brk.Fits k m (m .startBrk) y := by
    show _ + ((m .endData).toNat - (m .startData).toNat) ≤ _
    rw [hempty.1]
    omega
  have hfirst := moves_end (s := .brk) h hy hbrk hfits nofun
  exact hfirst.trans (moves_end (s := .data) (Moves.fine h hfirst) hx hdata hlimit nofun)

/-- The addresses that want a mapping come last, and only those that are to be others are set. -/
theorem moves_all {m m' : Addrs} (h : Fine k m) (h' : Fine k m')
    (hvma : ∀ f, f.onStack = true → m' f ≠ m f → k.findVma (m' f) = true)
    (hfree : 0 < k.rlimitData.toNat ∨
      m' .startData = m .startData ∧ m' .startBrk = m .startBrk) : Moves k m m' := by
  obtain ⟨m₁, hm₁, hempty, hdata, hbrk, hsame⟩ := moves_empty h
  rw [← hdata, ← hbrk] at hfree
  have h₁ := Moves.fine h hm₁
  have hstarts := moves_starts h₁ hempty (h'.range .startData) (h'.range .startBrk) hfree
  have h₂ := Moves.fine h₁ hstarts
  have hends := moves_ends h₂ ⟨rfl, rfl⟩ (h'.range .endData) (h'.range .brk) h'.data h'.brk h'.limit
  have h₃ := Moves.fine h₂ hends
  have hcode := moves_place (s := .code) (fun _ _ _ => trivial) h₃ (h'.range .startCode)
    (h'.range .endCode) h'.code nofun nofun
  have h₄ := Moves.fine h₃ hcode
  -- up to here these addresses are those of the start
  have hnew : ∀ f, f.onStack = true → m' f ≠ m₁ f → k.findVma (m' f) = true := by
    intro f hf hne
    exact hvma f hf (hsame f hf ▸ hne)
  have harg := moves_place (s := .arg) (fun _ _ _ => trivial) h₄ (h'.range .argStart)
    (h'.range .argEnd) h'.arg (fun hne _ => hnew .argStart rfl hne)
    (fun hne _ => hnew .argEnd rfl hne)
  have h₅ := Moves.fine h₄ harg
  have henv := moves_place (s := .env) (fun _ _ _ => trivial) h₅ (h'.range .envStart)
    (h'.range .envEnd) h'.env (fun hne _ => hnew .envStart rfl hne)
    (fun hne _ => hnew .envEnd rfl hne)
  -- the stack has a start only
  have hstack : ∀ {m₆ : Addrs}, m₆ .startStack = m₁ .startStack →
      Function.update m₆ .startStack (m' .startStack) = m' → Moves k m₆ m' := by
    intro m₆ hm₆ heq
    by_cases hne : m' .startStack = m₁ .startStack
    · rw [hne, ← hm₆, Function.update_eq_self] at heq
      rw [heq]
    · exact .single ⟨.startStack, m' .startStack, heq.symm, h', fun _ => hnew .startStack rfl hne⟩
  refine (hm₁.trans hstarts).trans
    ((hends.trans hcode).trans ((harg.trans henv).trans (hstack rfl ?_)))
  funext f
  cases f <;> rfl

/-! ## The calls that set one address -/

theorem prctlSetMm_address (hlimit : DataRlimit k) (htop : k.taskSize.toNat ≤ 2 ^ 63)
    (hcap : k.capable = true) (mm : Mm File) {f : Field} {a : UInt64}
    (hfine : Fine k (Function.update mm.addrs f a))
    (hvma : f.onStack = true → k.findVma a = true) :
    prctlSetMm pairs k (.address f) a 0 0 mm =
      (0, { mm with addrs := Function.update mm.addrs f a }) := by
  have hin := hfine.range f
  rw [Function.update_self] at hin
  have hrange : ¬ (a ≥ k.taskSize ∨ a < k.mmapMinAddr) := by
    rw [ge_iff_le, UInt64.le_iff_toNat_le, UInt64.lt_iff_toNat_lt]
    omega
  have hvma' : ¬ (f.onStack = true ∧ k.findVma a = false) := by
    rintro ⟨hf, hno⟩
    rw [hvma hf] at hno
    cases hno
  have hval := (validatePrctlMapAddr_eq_none_iff hlimit htop).mpr hfine
  simp [prctlSetMm, hcap, hrange, hval, hvma']

variable (pairs) in
/-- A call for one address that succeeds. -/
def setField (k : Answers File) : Field × UInt64 → Mm File → Option (Mm File)
  | (f, a), mm =>
    let r := prctlSetMm pairs k (.address f) a 0 0 mm
    if r.1 = 0 then some r.2 else none

theorem setField_of_fine (hlimit : DataRlimit k) (htop : k.taskSize.toNat ≤ 2 ^ 63)
    (hcap : k.capable = true) (mm : Mm File) {f : Field} {a : UInt64}
    (hfine : Fine k (Function.update mm.addrs f a))
    (hvma : f.onStack = true → k.findVma a = true) :
    setField pairs k (f, a) mm = some { mm with addrs := Function.update mm.addrs f a } := by
  unfold setField
  dsimp only
  rw [prctlSetMm_address hlimit htop hcap mm hfine hvma]
  rfl

/-- Such a call has the capability, changes one address, to one with a mapping where the code wants
    that, and leaves all of them as the checks want them. -/
theorem setField_cases {f : Field} {a : UInt64} (h : setField pairs k (f, a) mm = some mm') :
    k.capable = true ∧ (f.onStack = true → k.findVma a = true) ∧
      mm'.addrs = Function.update mm.addrs f a ∧ validatePrctlMapAddr k mm'.addrs = none := by
  have hfail : ∀ e : Errno, ¬ (if (e.ret, mm).1 = 0 then some (e.ret, mm).2 else none) = some mm' :=
    fun e he => by simp [Int.ne_of_lt e.ret_neg] at he
  unfold setField prctlSetMm at h
  dsimp only at h
  split at h
  · exact absurd h (hfail _)
  split at h
  · rename_i hmap
    simp at hmap
  split at h
  · exact absurd h (hfail _)
  rename_i hcap
  split at h
  · rename_i hopt
    cases hopt
  split at h
  · rename_i hopt
    cases hopt
  split at h
  · exact absurd h (hfail _)
  cases hval : validatePrctlMapAddr k (Function.update mm.addrs f a) with
  | some e =>
    rw [hval] at h
    exact absurd h (hfail e)
  | none =>
    rw [hval] at h
    dsimp only at h
    split at h
    · exact absurd h (hfail _)
    · rename_i hvma
      cases h
      rw [not_and, Bool.not_eq_false] at hvma
      exact ⟨Bool.not_eq_false _ ▸ hcap, hvma, rfl, hval⟩

theorem reach_of_moves (hlimit : DataRlimit k) (htop : k.taskSize.toNat ≤ 2 ^ 63)
    (hcap : k.capable = true) {m : Addrs} (h : Moves k mm.addrs m) :
    Reach (setField pairs k) mm { mm with addrs := m } := by
  induction h with
  | refl => exact .refl
  | tail _ hlast ih =>
    obtain ⟨f, a, rfl, hfine, hvma⟩ := hlast
    exact ih.tail ⟨(f, a), setField_of_fine hlimit htop hcap { mm with addrs := _ } hfine hvma⟩

/-- Without the capability nothing is set. -/
theorem reach_capable (h : Reach (setField pairs k) mm mm') :
    k.capable = true ∨ mm'.addrs = mm.addrs :=
  h.invariant (I := fun t => k.capable = true ∨ t.addrs = mm.addrs) (.inr rfl)
    fun _ _ _ _ hs => .inl (setField_cases hs).1

/-- Where the code wants a mapping for an address, there is one, or the address is still that of
    the start. -/
theorem reach_mapped (h : Reach (setField pairs k) mm mm') :
    ∀ f, f.onStack = true → mm'.addrs f ≠ mm.addrs f → k.findVma (mm'.addrs f) = true := by
  refine h.invariant (I := fun t => ∀ f, f.onStack = true → t.addrs f ≠ mm.addrs f →
    k.findVma (t.addrs f) = true) (fun _ _ hne => absurd rfl hne) ?_
  rintro ⟨f, a⟩ t t' ih hs g hg hne
  obtain ⟨-, hvma, haddrs, -⟩ := setField_cases hs
  by_cases hgf : g = f
  · subst hgf
    rw [haddrs, Function.update_self]
    exact hvma hg
  · rw [haddrs, Function.update_of_ne hgf] at hne ⊢
    exact ih g hg hne

/-- Where no byte of data is allowed, the starts cannot be moved. -/
theorem reach_starts (hlimit : DataRlimit k) (htop : k.taskSize.toNat ≤ 2 ^ 63)
    (hnone : k.rlimitData = 0) (hmm : Fine k mm.addrs) (h : Reach (setField pairs k) mm mm') :
    mm'.addrs .startData = mm.addrs .startData ∧ mm'.addrs .startBrk = mm.addrs .startBrk := by
  have hclosed : ∀ {m : Addrs}, Fine k m → m .endData = m .startData ∧ m .brk = m .startBrk := by
    intro m hm
    have hle := hm.limit
    have hdata := hm.data
    have hbrk := hm.brk
    rw [hnone, UInt64.toNat_zero] at hle
    exact ⟨UInt64.toNat_inj.mp (by omega), UInt64.toNat_inj.mp (by omega)⟩
  refine (h.invariant (I := fun t => Fine k t.addrs ∧ t.addrs .startData = mm.addrs .startData ∧
    t.addrs .startBrk = mm.addrs .startBrk) ⟨hmm, rfl, rfl⟩ ?_).2
  rintro ⟨f, a⟩ t t' ⟨ht, hdata, hbrk⟩ hs
  obtain ⟨-, -, haddrs, hval⟩ := setField_cases hs
  have ht' := (validatePrctlMapAddr_eq_none_iff hlimit htop).mp hval
  obtain ⟨hdata₀, hbrk₀⟩ := hclosed ht
  obtain ⟨hdata₁, hbrk₁⟩ := hclosed ht'
  refine ⟨ht', ?_, ?_⟩
  · by_cases hf : f = .startData
    · rw [← hdata₁, ← hdata, ← hdata₀, haddrs, hf]
      rfl
    · rw [← hdata, haddrs, Function.update_of_ne (Ne.symm hf)]
  · by_cases hf : f = .startBrk
    · rw [← hbrk₁, ← hbrk, ← hbrk₀, haddrs, hf]
      rfl
    · rw [← hbrk, haddrs, Function.update_of_ne (Ne.symm hf)]

/-- **At once and one after the other**: the addresses that `PR_SET_MM_MAP` sets in one call can be
    set with calls for one address each, every one of which succeeds, if and only if these calls
    have the capability or there is nothing to set; `find_vma` finds a mapping for every address of
    stack, arguments and environment that is to be another one; and the limit allows data at all or
    the starts of data and heap remain where they are.  The addresses of the start pass the checks,
    the kernel answers the same in all calls, and its answer about the limit is that of
    `check_data_rlimit`. -/
theorem field_by_field_iff (hlimit : DataRlimit k) (htop : k.taskSize.toNat ≤ 2 ^ 63)
    (hmm : validatePrctlMapAddr k mm.addrs = none) {addr arg4 : UInt64}
    (hmap : prctlSetMm pairs k .map addr arg4 0 mm = (0, mm')) :
    (∃ t, Reach (setField pairs k) mm t ∧ t.addrs = mm'.addrs) ↔
      (k.capable = true ∨ mm'.addrs = mm.addrs) ∧
      (∀ f, f.onStack = true → mm'.addrs f ≠ mm.addrs f → k.findVma (mm'.addrs f) = true) ∧
      (k.rlimitData ≠ 0 ∨ (mm'.addrs .startData = mm.addrs .startData ∧
        mm'.addrs .startBrk = mm.addrs .startBrk)) := by
  have hfine := (validatePrctlMapAddr_eq_none_iff hlimit htop).mp hmm
  have hfine' : Fine k mm'.addrs := by
    have heff := run_effect pairs k mm ⟨.map, addr, arg4, 0⟩
    unfold Call.run at heff
    rw [hmap] at heff
    rcases heff.addrs with hsame | ⟨hval, -⟩
    · rw [hsame]
      exact hfine
    · exact (validatePrctlMapAddr_eq_none_iff hlimit htop).mp hval
  constructor
  · rintro ⟨t, hr, ht⟩
    rw [← ht]
    refine ⟨reach_capable hr, reach_mapped hr, ?_⟩
    by_cases hnone : k.rlimitData = 0
    · exact .inr (reach_starts hlimit htop hnone hfine hr)
    · exact .inl hnone
  · rintro ⟨hcap | hsame, hvma, hfree⟩
    · have hfree' : 0 < k.rlimitData.toNat ∨ (mm'.addrs .startData = mm.addrs .startData ∧
          mm'.addrs .startBrk = mm.addrs .startBrk) := by
        refine hfree.imp_left fun hne => Nat.pos_of_ne_zero fun hzero => hne ?_
        exact UInt64.toNat_inj.mp hzero
      exact ⟨_, reach_of_moves hlimit htop hcap (moves_all hfine hfine' hvma hfree'), rfl⟩
    · exact ⟨mm, .refl, hsame.symm⟩

/-- Data and heap of a process that may have one byte of data. -/
theorem field_by_field_iff_oneByte :
    ∃ t, Reach (setField 1 (.granting 1 (smallMap 4096000)))
        ⟨(smallMap 73728).addrs, List.replicate 32 0, ()⟩ t ∧
      t.addrs = (smallMap 4096000).addrs := by
  have hlimit : DataRlimit (.granting 1 (smallMap 4096000)) := by
    intro rlim new start endData startData
    show (decide _ && decide _) = true ↔ _
    rw [Bool.and_eq_true, decide_eq_true_iff, decide_eq_true_iff]
  have hmap : prctlSetMm 1 (.granting 1 (smallMap 4096000)) .map 0 104 0
      ⟨(smallMap 73728).addrs, List.replicate 32 0, ()⟩ =
        (0, ⟨(smallMap 4096000).addrs, List.replicate 16 7 ++ List.replicate 16 0, ()⟩) := rfl
  have htop : (140737488351232 : UInt64).toNat ≤ 2 ^ 63 := by decide
  exact (field_by_field_iff hlimit htop rfl hmap).mpr
    ⟨.inl rfl, fun _ _ _ => rfl, .inl (by decide)⟩

end Moves

end UsacSyscalls.Sys.MemoryMap
