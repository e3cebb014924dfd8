import Mathlib.Data.DFinsupp.WellFounded
import Mathlib.Data.Prod.Lex
import Mathlib.Logic.Function.Basic
import UsacSyscalls.Lib.Run

/-!
# Components that share a store

Any number of components move in any order over one store.  Each has a footprint, the locations
that its moves depend on, and may change some of them.

* `Separate` — nobody changes what is in the footprint of another one.
* `reach_alone` — in every run of all together each component is where it also gets alone, and its
  footprint holds what it then holds.
* `separate_ensures` — **composition**: separate components ensure together what each of them
  ensures alone, and leave everything else as it was.
* `row` — components one after the other are a component; `row_ensures` is the rule for it.
-/

set_option autoImplicit false

namespace Lib.Footprint

open Lib.Run

variable {ι α σ Loc Val β : Type}

/-- A component, with what its moves look at and what they may change. -/
structure Component (α σ Loc Val : Type) where
  step : α → σ × (Loc → Val) → Option (σ × (Loc → Val))
  footprint : Loc → Prop
  writes : Loc → Prop
  writes_footprint : ∀ {l}, writes l → footprint l
  frame : ∀ {a x x'}, step a x = some x' → ∀ l, ¬ writes l → x'.2 l = x.2 l
  /-- With the same footprint it makes the same move. -/
  depends : ∀ {a x x'}, step a x = some x' → ∀ m, (∀ l, footprint l → m l = x.2 l) →
    ∃ m', step a (x.1, m) = some (x'.1, m') ∧ ∀ l, footprint l → m' l = x'.2 l

/-- All components, over the store as it is now. -/
structure Shared (ι σ Loc Val : Type) where
  store : Loc → Val
  parts : ι → σ

section System

variable [DecidableEq ι] (c : ι → Component α σ Loc Val)

/-- One component moves. -/
def sharedStep : ι × α → Shared ι σ Loc Val → Option (Shared ι σ Loc Val)
  | (i, a), b =>
    ((c i).step a (b.parts i, b.store)).map fun x => ⟨x.2, Function.update b.parts i x.1⟩

/-- No component changes what another one looks at. -/
def Separate : Prop := ∀ i j, i ≠ j → ∀ l, (c i).writes l → ¬ (c j).footprint l

/-- A state that the component `i` reaches alone, in which it is exactly as far as in `b`. -/
structure Alone (s₀ : ι → σ) (m₀ : Loc → Val) (b : Shared ι σ Loc Val) (i : ι) (m : Loc → Val) :
    Prop where
  reach : Reach (c i).step (s₀ i, m₀) (b.parts i, m)
  same : ∀ l, (c i).footprint l → b.store l = m l

variable {c} {s₀ : ι → σ} {m₀ : Loc → Val} {b b' : Shared ι σ Loc Val}

theorem sharedStep_cases {i : ι} {a : α} (h : sharedStep c (i, a) b = some b') :
    ∃ x, (c i).step a (b.parts i, b.store) = some x ∧
      b' = ⟨x.2, Function.update b.parts i x.1⟩ := by
  obtain ⟨x, hx, rfl⟩ := Option.map_eq_some_iff.mp h
  exact ⟨x, hx, rfl⟩

/-- The step lemma: the component that moves makes the same move alone, the others are not
    touched. -/
theorem alone_step (hsep : Separate c) {i : ι} {a : α} (h : ∀ j, ∃ m, Alone c s₀ m₀ b j m)
    (hs : sharedStep c (i, a) b = some b') (j : ι) : ∃ m, Alone c s₀ m₀ b' j m := by
  obtain ⟨x, hx, rfl⟩ := sharedStep_cases hs
  obtain ⟨m, hm⟩ := h j
  by_cases hij : j = i
  · subst hij
    obtain ⟨m', hm', hsame⟩ := (c j).depends hx m fun l hl => (hm.same l hl).symm
    refine ⟨m', ?_, fun l hl => (hsame l hl).symm⟩
    show Reach (c j).step (s₀ j, m₀) (Function.update b.parts j x.1 j, m')
    rw [Function.update_self]
    exact hm.reach.tail ⟨a, hm'⟩
  · refine ⟨m, ?_, fun l hl => ?_⟩
    · show Reach (c j).step (s₀ j, m₀) (Function.update b.parts i x.1 j, m)
      rw [Function.update_of_ne hij]
      exact hm.reach
    · have hnot : ¬ (c i).writes l := fun hw => hsep i j (Ne.symm hij) l hw hl
      exact ((c i).frame hx l hnot).trans (hm.same l hl)

/-- **Each component runs as if alone.** -/
theorem reach_alone (hsep : Separate c) (h : Reach (sharedStep c) ⟨m₀, s₀⟩ b) :
    ∀ i, ∃ m, Alone c s₀ m₀ b i m := by
  have hstart : ∀ i, ∃ m, Alone c s₀ m₀ ⟨m₀, s₀⟩ i m := fun i => ⟨m₀, .refl, fun _ _ => rfl⟩
  exact h.invariant (I := fun b => ∀ i, ∃ m, Alone c s₀ m₀ b i m) hstart
    fun ⟨_, _⟩ _ _ hI hs => alone_step hsep hI hs

/-- What nobody may change stays. -/
theorem reach_untouched (h : Reach (sharedStep c) ⟨m₀, s₀⟩ b) {l : Loc}
    (hl : ∀ i, ¬ (c i).writes l) : b.store l = m₀ l := by
  refine h.invariant (I := fun b => b.store l = m₀ l) rfl ?_
  rintro ⟨i, a⟩ t t' ht hs
  obtain ⟨x, hx, rfl⟩ := sharedStep_cases hs
  exact ((c i).frame hx l (hl i)).trans ht

/-- A component that cannot move here cannot move alone either. -/
theorem Alone.terminal {i : ι} {m : Loc → Val} (h : Alone c s₀ m₀ b i m)
    (ht : Terminal (sharedStep c) b) : Terminal (c i).step (b.parts i, m) := by
  intro a
  cases hstep : (c i).step a (b.parts i, m) with
  | none => rfl
  | some x =>
    obtain ⟨m', hm', -⟩ := (c i).depends hstep b.store h.same
    have hnone := ht (i, a)
    rw [sharedStep, hm'] at hnone
    cases hnone

/-- **Composition**: separate components, of which every move makes progress, ensure together what
    each of them ensures alone, on its footprint; the rest of the store stays as it was. -/
theorem separate_ensures [Finite ι] [Preorder β] [WellFoundedLT β] (hsep : Separate c)
    (μ : ι → σ → β) (hdec : ∀ i a x x', (c i).step a x = some x' → μ i x'.1 < μ i x.1)
    {Q : ι → σ × (Loc → Val) → Prop} (hQ : ∀ i, Ensures (c i).step (Q i) (s₀ i, m₀)) :
    Ensures (sharedStep c)
      (fun b => (∀ i, ∃ m, Q i (b.parts i, m) ∧ ∀ l, (c i).footprint l → b.store l = m l) ∧
        ∀ l, (∀ i, ¬ (c i).writes l) → b.store l = m₀ l) ⟨m₀, s₀⟩ := by
  have hwf : WellFounded ((· < ·) : (ι → β) → (ι → β) → Prop) := wellFounded_lt
  refine Ensures.of_measure (fun b => fun i => μ i (b.parts i)) hwf ?_ ?_
  · rintro ⟨i, a⟩ t t' hs
    obtain ⟨x, hx, rfl⟩ := sharedStep_cases hs
    have hlt := hdec i a _ _ hx
    rw [Pi.lt_def]
    refine ⟨fun j => ?_, i, ?_⟩
    · show μ j (Function.update t.parts i x.1 j) ≤ μ j (t.parts j)
      by_cases hij : j = i
      · subst hij
        rw [Function.update_self]
        exact hlt.le
      · rw [Function.update_of_ne hij]
    · show μ i (Function.update t.parts i x.1 i) < μ i (t.parts i)
      rw [Function.update_self]
      exact hlt
  · intro b hr ht
    refine ⟨fun i => ?_, fun l hl => reach_untouched hr hl⟩
    obtain ⟨m, hm⟩ := reach_alone hsep hr i
    exact ⟨m, (hQ i).post _ hm.reach (hm.terminal ht), hm.same⟩

end System

/-! ## One after the other -/

section Row

variable (done : σ → Prop) [DecidablePred done] (init : σ)

/-- The component at the front of what is left of the row moves, or, once it is done, the next one
    starts. -/
def rowStep (cs : List (Component α σ Loc Val)) :
    Option α → (Nat × σ) × (Loc → Val) → Option ((Nat × σ) × (Loc → Val))
  | some a, ((k, s), m) =>
    match cs[k]? with
    | none => none
    | some c => (c.step a (s, m)).map fun x => ((k, x.1), x.2)
  | none, ((k, s), m) => if k < cs.length ∧ done s then some ((k + 1, init), m) else none

variable {done init} {cs : List (Component α σ Loc Val)}

theorem rowStep_cases {a : Option α} {k : Nat} {s : σ} {m : Loc → Val}
    {y : (Nat × σ) × (Loc → Val)} (h : rowStep done init cs a ((k, s), m) = some y) :
    (∃ b c x, a = some b ∧ cs[k]? = some c ∧ c.step b (s, m) = some x ∧ y = ((k, x.1), x.2)) ∨
      a = none ∧ k < cs.length ∧ done s ∧ y = ((k + 1, init), m) := by
  cases a with
  | some b =>
    simp only [rowStep] at h
    split at h
    · cases h
    · rename_i c hc
      obtain ⟨x, hx, rfl⟩ := Option.map_eq_some_iff.mp h
      exact .inl ⟨b, c, x, rfl, hc, hx, rfl⟩
  | none =>
    simp only [rowStep] at h
    split at h
    · rename_i hdone
      cases h
      exact .inr ⟨rfl, hdone.1, hdone.2, rfl⟩
    · cases h

theorem rowStep_some {a : α} {k : Nat} {s : σ} {m : Loc → Val} {c : Component α σ Loc Val}
    (hc : cs[k]? = some c) :
    rowStep done init cs (some a) ((k, s), m) =
      (c.step a (s, m)).map fun x => ((k, x.1), x.2) := by
  simp only [rowStep, hc]

variable (done init cs) in
def row : Component (Option α) (Nat × σ) Loc Val where
  step := rowStep done init cs
  footprint l := ∃ c ∈ cs, c.footprint l
  writes l := ∃ c ∈ cs, c.writes l
  writes_footprint := fun ⟨c, hc, hl⟩ => ⟨c, hc, c.writes_footprint hl⟩
  frame := by
    rintro a ⟨⟨k, s⟩, m⟩ y h l hl
    obtain ⟨b, c, x, -, hc, hx, rfl⟩ | ⟨-, -, -, rfl⟩ := rowStep_cases h
    · exact c.frame hx l fun hw => hl ⟨c, List.mem_of_getElem? hc, hw⟩
    · rfl
  depends := by
    rintro a ⟨⟨k, s⟩, m⟩ y h m₁ hm
    obtain ⟨b, c, x, rfl, hc, hx, rfl⟩ | ⟨rfl, hk, hdone, rfl⟩ := rowStep_cases h
    · have hmem := List.mem_of_getElem? hc
      obtain ⟨m₂, hm₂, hsame⟩ := c.depends hx m₁ fun l hl => hm l ⟨c, hmem, hl⟩
      refine ⟨m₂, ?_, ?_⟩
      · rw [rowStep_some hc, hm₂]
        rfl
      · rintro l hl
        by_cases hlc : c.footprint l
        · exact hsame l hlc
        · have hnot : ¬ c.writes l := fun hw => hlc (c.writes_footprint hw)
          exact ((c.frame hm₂ l hnot).trans (hm l hl)).trans (c.frame hx l hnot).symm
    · exact ⟨m₁, if_pos ⟨hk, hdone⟩, hm⟩

variable (done init) in
/-- The component ends in every run, is done when it cannot move, and whenever it is done the store
    satisfies `P`. -/
structure Finishes (c : Component α σ Loc Val) (m : Loc → Val) (P : (Loc → Val) → Prop) : Prop where
  acc : Acc (fun x' x => Step c.step x x') (init, m)
  done_of_terminal : ∀ x, Reach c.step (init, m) x → Terminal c.step x → done x.1
  post : ∀ x, Reach c.step (init, m) x → done x.1 → P x.2

variable (done init) in
/-- Each component of the row finishes, and leaves what the next one needs. -/
def Chain : List (Component α σ Loc Val) → (Loc → Val) → ((Loc → Val) → Prop) → Prop
  | [], m, Q => Q m
  | c :: cs, m, Q => Finishes done init c m fun m' => Chain cs m' Q

/-- The rest of the row, by induction on its length, and for each component on the moves it has
    left. -/
theorem row_ensures_from {Q : (Loc → Val) → Prop} :
    ∀ (n k : Nat) (m : Loc → Val), k + n = cs.length → Chain done init (cs.drop k) m Q →
      Ensures (row done init cs).step (fun y => y.1.1 = cs.length ∧ Q y.2) ((k, init), m) := by
  intro n
  induction n with
  | zero =>
    intro k m hk hchain
    rw [List.drop_eq_nil_of_le (by omega)] at hchain
    refine Ensures.of_terminal (fun a => ?_) ⟨by omega, hchain⟩
    cases hs : (row done init cs).step a ((k, init), m) with
    | none => rfl
    | some y =>
      obtain ⟨b, c, x, -, hc, -⟩ | ⟨-, hlt, -⟩ := rowStep_cases hs
      · have hlt := (List.getElem?_eq_some_iff.mp hc).1
        omega
      · omega
  | succ n ih =>
    intro k m hk hchain
    have hlt : k < cs.length := by omega
    rw [List.drop_eq_getElem_cons hlt] at hchain
    have hget : cs[k]? = some cs[k] := List.getElem?_eq_getElem hlt
    have hphase : ∀ x, Acc (fun x' x => Step cs[k].step x x') x → Reach cs[k].step (init, m) x →
        Ensures (row done init cs).step (fun y => y.1.1 = cs.length ∧ Q y.2) ((k, x.1), x.2) := by
      intro x hacc
      induction hacc with
      | intro x _ ihx =>
        intro hr
        refine Ensures.of_next (fun a y hs => ?_) fun hterm => ?_
        · obtain ⟨b, c, x', rfl, hc, hx', rfl⟩ | ⟨rfl, -, hdone, rfl⟩ := rowStep_cases hs
          · rw [hget, Option.some.injEq] at hc
            subst hc
            exact ihx x' ⟨b, hx'⟩ (hr.tail ⟨b, hx'⟩)
          · exact ih (k + 1) x.2 (by omega) (hchain.post x hr hdone)
        · exfalso
          have hstuck : Terminal cs[k].step x := by
            intro a
            have hnone : rowStep done init cs (some a) ((k, x.1), x.2) = none := hterm (some a)
            rw [rowStep_some hget] at hnone
            exact Option.map_eq_none_iff.mp hnone
          have hdone := hchain.done_of_terminal x hr hstuck
          have hnext : rowStep done init cs none ((k, x.1), x.2) = none := hterm none
          rw [rowStep, if_pos ⟨hlt, hdone⟩] at hnext
          cases hnext
    exact hphase (init, m) hchain.acc .refl

/-- **Rule for rows**. -/
theorem row_ensures {m : Loc → Val} {Q : (Loc → Val) → Prop} (h : Chain done init cs m Q) :
    Ensures (row done init cs).step (fun y => y.1.1 = cs.length ∧ Q y.2) ((0, init), m) :=
  row_ensures_from cs.length 0 m (by omega) h

/-- What decreases in a row: the components left, and what decreases in the one that moves. -/
theorem row_decreases [Preorder β] (μ : Nat → σ → β)
    (hdec : ∀ {k c a x x'}, cs[k]? = some c → c.step a x = some x' → μ k x'.1 < μ k x.1)
    {a : Option α} {y y' : (Nat × σ) × (Loc → Val)}
    (h : (row done init cs).step a y = some y') :
    toLex (cs.length - y'.1.1, μ y'.1.1 y'.1.2) < toLex (cs.length - y.1.1, μ y.1.1 y.1.2) := by
  obtain ⟨⟨k, s⟩, m⟩ := y
  rw [Prod.Lex.toLex_lt_toLex]
  obtain ⟨b, c, x, -, hc, hx, rfl⟩ | ⟨-, hlt, -, rfl⟩ := rowStep_cases h
  · exact .inr ⟨rfl, hdec hc hx⟩
  · exact .inl (by dsimp only; omega)

end Row

end Lib.Footprint
