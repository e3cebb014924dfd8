import Mathlib.Logic.Relation
import Mathlib.Order.WellFounded

/-!
# Runs of labelled transition systems

A system is a partial step function `step : α → σ → Option σ`: the actor `a` moves in the state
`s` iff `step a s` is `some _`.  A run lets the actors move in any order.

* `Reach` — the states some run leads to; `Reach.invariant` is the induction over a run, and
  `reach_of_exec` produces a run from an explicit schedule.
* `Ensures` — total correctness over every interleaving: no infinite run exists and every state
  in which nobody can move satisfies the postcondition.  `Ensures.of_measure` derives it from an
  invariant and a well-founded measure that every move decreases; for a single actor
  `Ensures.of_step` follows the one run there is.
* `restrict` — the same system with fewer moves.
* `Reach.of_map`, `Ensures.of_map` — a system seen through a map.
-/

set_option autoImplicit false

namespace Lib.Run

variable {σ τ α β : Type}

/-- One move of some actor. -/
def Step (step : α → σ → Option σ) (s s' : σ) : Prop := ∃ a, step a s = some s'

/-- The states some run from `s` leads to. -/
abbrev Reach (step : α → σ → Option σ) : σ → σ → Prop := Relation.ReflTransGen (Step step)

/-- Nobody can move. -/
def Terminal (step : α → σ → Option σ) (s : σ) : Prop := ∀ a, step a s = none

/-- Execute a schedule; `none` if an actor is scheduled that cannot move. -/
def exec (step : α → σ → Option σ) : List α → σ → Option σ
  | [], s => some s
  | a :: as, s =>
    match step a s with
    | none => none
    | some s' => exec step as s'

theorem reach_of_exec {step : α → σ → Option σ} :
    ∀ (as : List α) {s s' : σ}, exec step as s = some s' → Reach step s s'
  | [], s, s', h => by
    simp only [exec, Option.some.injEq] at h; subst h; exact .refl
  | a :: as, s, s', h => by
    simp only [exec] at h
    split at h
    · cases h
    · rename_i t ht
      exact .head ⟨a, ht⟩ (reach_of_exec as h)

/-- **Invariants**: what the start satisfies and every move preserves holds along every run. -/
theorem Reach.invariant {step : α → σ → Option σ} {I : σ → Prop} {s₀ s : σ}
    (h : Reach step s₀ s) (h₀ : I s₀) (hstep : ∀ a t t', I t → step a t = some t' → I t') : I s := by
  induction h with
  | refl => exact h₀
  | tail _ hs ih =>
    obtain ⟨a, ha⟩ := hs
    exact hstep a _ _ ih ha

/-- The same for a schedule, of whose actors something is known. -/
theorem exec_invariant {step : α → σ → Option σ} {I : σ → Prop} :
    ∀ (as : List α) {s s' : σ}, exec step as s = some s' → I s →
      (∀ a ∈ as, ∀ t t', I t → step a t = some t' → I t') → I s'
  | [], s, s', h, h₀, _ => by
    simp only [exec, Option.some.injEq] at h; subst h; exact h₀
  | a :: as, s, s', h, h₀, hstep => by
    simp only [exec] at h
    split at h
    · cases h
    · rename_i t ht
      exact exec_invariant as h (hstep a List.mem_cons_self s t h₀ ht)
        fun b hb => hstep b (List.mem_cons_of_mem a hb)

/-- A run of a system whose every move is a move of another one is a run of the other. -/
theorem Reach.of_subsystem {step : α → σ → Option σ} {sub : β → σ → Option σ} {s s' : σ}
    (h : Reach sub s s') (hsub : ∀ b t t', sub b t = some t' → ∃ a, step a t = some t') :
    Reach step s s' := by
  induction h with
  | refl => exact .refl
  | tail _ hs ih =>
    obtain ⟨b, hb⟩ := hs
    exact ih.tail (hsub b _ _ hb)

/-! ## Fewer moves -/

/-- The system in which an actor moves only where `ok` allows it. -/
def restrict (ok : α → σ → Prop) [∀ a s, Decidable (ok a s)] (step : α → σ → Option σ) :
    α → σ → Option σ := fun a s => if ok a s then step a s else none

theorem restrict_eq_some {ok : α → σ → Prop} [∀ a s, Decidable (ok a s)]
    {step : α → σ → Option σ} {a : α} {s s' : σ} (h : restrict ok step a s = some s') :
    ok a s ∧ step a s = some s' := by
  unfold restrict at h
  split at h
  · rename_i hok
    exact ⟨hok, h⟩
  · cases h

theorem Reach.of_restrict {ok : α → σ → Prop} [∀ a s, Decidable (ok a s)]
    {step : α → σ → Option σ} {s s' : σ} (h : Reach (restrict ok step) s s') : Reach step s s' :=
  h.of_subsystem fun a _ _ ha => ⟨a, (restrict_eq_some ha).2⟩

/-! ## Total correctness over every interleaving -/

/-- Every run from `s` is finite, and every state in which nobody can move satisfies `Q`. -/
structure Ensures (step : α → σ → Option σ) (Q : σ → Prop) (s : σ) : Prop where
  acc : Acc (fun t' t => Step step t t') s
  post : ∀ s', Reach step s s' → Terminal step s' → Q s'

/-- **Total correctness** from a measure that every move decreases. -/
theorem Ensures.of_measure {step : α → σ → Option σ} {Q : σ → Prop} {s : σ} (μ : σ → β)
    {r : β → β → Prop} (hwf : WellFounded r) (hdec : ∀ a t t', step a t = some t' → r (μ t') (μ t))
    (hpost : ∀ s', Reach step s s' → Terminal step s' → Q s') : Ensures step Q s := by
  refine ⟨?_, hpost⟩
  have hsub : Subrelation (fun t' t => Step step t t') (InvImage r μ) := by
    rintro t' t ⟨a, ha⟩
    exact hdec a t t' ha
  exact (hsub.wf (InvImage.wf μ hwf)).apply s

theorem exists_terminal_of_acc {step : α → σ → Option σ} {s : σ}
    (h : Acc (fun t' t => Step step t t') s) : ∃ s', Reach step s s' ∧ Terminal step s' := by
  induction h with
  | intro s _ ih =>
    by_cases hs : Terminal step s
    · exact ⟨s, .refl, hs⟩
    · simp only [Terminal, not_forall] at hs
      obtain ⟨a, ha⟩ := hs
      obtain ⟨t, ht⟩ := Option.ne_none_iff_exists'.mp ha
      obtain ⟨s', hr, hs'⟩ := ih t ⟨a, ht⟩
      exact ⟨s', .head ⟨a, ht⟩ hr, hs'⟩

/-- A system that ensures something has a run that ends. -/
theorem Ensures.exists_final {step : α → σ → Option σ} {Q : σ → Prop} {s : σ}
    (h : Ensures step Q s) : ∃ s', Reach step s s' ∧ Terminal step s' ∧ Q s' := by
  obtain ⟨s', hr, ht⟩ := exists_terminal_of_acc h.acc
  exact ⟨s', hr, ht, h.post s' hr ht⟩

theorem Ensures.mono {step : α → σ → Option σ} {P Q : σ → Prop} {s : σ}
    (h : Ensures step P s) (hPQ : ∀ s', P s' → Q s') : Ensures step Q s :=
  ⟨h.acc, fun s' hr ht => hPQ s' (h.post s' hr ht)⟩

/-- What is ensured after every possible move is ensured before it. -/
theorem Ensures.of_next {step : α → σ → Option σ} {Q : σ → Prop} {s : σ}
    (hnext : ∀ a t, step a s = some t → Ensures step Q t) (hterm : Terminal step s → Q s) :
    Ensures step Q s := by
  refine ⟨Acc.intro s fun t ⟨a, ha⟩ => (hnext a t ha).acc, fun u hu ht => ?_⟩
  rcases Relation.ReflTransGen.cases_head hu with rfl | ⟨t, ⟨a, ha⟩, htu⟩
  · exact hterm ht
  · exact (hnext a t ha).post u htu ht

/-- When the outcome of every complete run is known exactly, a postcondition is ensured iff
    the outcome satisfies it. -/
theorem Ensures.iff_of_outcome {step : α → σ → Option σ} {Q : σ → Prop} {P : Prop} {s : σ}
    (h : Ensures step (fun s' => Q s' ↔ P) s) : Ensures step Q s ↔ P := by
  constructor
  · intro hQ
    obtain ⟨s', hr, ht, hiff⟩ := h.exists_final
    exact hiff.mp (hQ.post s' hr ht)
  · intro hP
    exact h.mono fun s' hiff => hiff.mpr hP

/-! ## A system seen through a map -/

section Map

variable {step : α → σ → Option σ} {step' : α → τ → Option τ} (g : τ → σ)

theorem Step.of_map (hstep : ∀ a t, (step' a t).map g = step a (g t)) {t t' : τ}
    (h : Step step' t t') : Step step (g t) (g t') := by
  obtain ⟨a, ha⟩ := h
  exact ⟨a, by rw [← hstep, ha, Option.map_some]⟩

theorem Reach.of_map (hstep : ∀ a t, (step' a t).map g = step a (g t)) {t t' : τ}
    (h : Reach step' t t') : Reach step (g t) (g t') := h.lift g fun _ _ => Step.of_map g hstep

/-- What a system ensures, another one does whose moves are the same seen through `g`. -/
theorem Ensures.of_map (hstep : ∀ a t, (step' a t).map g = step a (g t)) {Q : σ → Prop} {t : τ}
    (h : Ensures step Q (g t)) : Ensures step' (fun t' => Q (g t')) t := by
  have hacc := InvImage.accessible g h.acc
  refine ⟨Subrelation.accessible (Step.of_map g hstep) hacc, fun t' hr ht => ?_⟩
  refine h.post (g t') (Reach.of_map g hstep hr) fun a => ?_
  rw [← hstep, ht a, Option.map_none]

end Map

/-! ## A single actor -/

theorem Ensures.of_terminal {step : α → σ → Option σ} {Q : σ → Prop} {s : σ}
    (hs : Terminal step s) (hQ : Q s) : Ensures step Q s := by
  refine Ensures.of_next (fun a t ha => ?_) fun _ => hQ
  rw [hs a] at ha
  cases ha

/-- What is ensured after the only possible move is ensured before it. -/
theorem Ensures.of_step {step : Unit → σ → Option σ} {Q : σ → Prop} {s t : σ}
    (hs : step () s = some t) (ht : Ensures step Q t) : Ensures step Q s := by
  refine Ensures.of_next (fun a u ha => ?_) fun hterm => ?_
  · rw [hs] at ha
    rw [← Option.some.inj ha]
    exact ht
  · rw [hterm ()] at hs
    cases hs

/-- What is ensured at some point of the only run is ensured at its start. -/
theorem Ensures.of_reach {step : Unit → σ → Option σ} {Q : σ → Prop} {s t : σ}
    (hs : Reach step s t) (ht : Ensures step Q t) : Ensures step Q s := by
  induction hs using Relation.ReflTransGen.head_induction_on with
  | refl => exact ht
  | head hstep _ ih =>
    obtain ⟨a, ha⟩ := hstep
    exact Ensures.of_step ha ih

end Lib.Run
