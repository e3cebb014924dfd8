/-!
# Acquire / release ledgers

The trail of a program that takes resources and gives them back.  `replay` walks the trail with
the resources held so far and fails at a release of something that is not held: a resource that
was never acquired, that was given back before, or whose acquisition had failed.  A trail is
`Balanced` when it replays from nothing held to nothing held: every resource acquired is released
once and nothing else is ever released.
-/

set_option autoImplicit false

namespace Lib.Ledger

variable {ρ : Type}

inductive Op (ρ : Type) where
  | acquire (r : ρ)
  | release (r : ρ)
  deriving DecidableEq, Repr

/-- The entry of an attempt to take `r`: nothing is recorded when the attempt fails. -/
def attempt (ok : Bool) (r : ρ) : List (Op ρ) := if ok then [.acquire r] else []

@[simp] theorem attempt_true (r : ρ) : attempt true r = [.acquire r] := rfl
@[simp] theorem attempt_false (r : ρ) : attempt false r = [] := rfl

theorem release_not_mem_attempt (ok : Bool) (r r' : ρ) : Op.release r' ∉ attempt ok r := by
  cases ok <;> simp

section Replay

variable [DecidableEq ρ]

/-- Walk a trail; `none` at a release of something not held. -/
def replay : List (Op ρ) → List ρ → Option (List ρ)
  | [], held => some held
  | .acquire r :: t, held => replay t (r :: held)
  | .release r :: t, held => if r ∈ held then replay t (held.erase r) else none

/-- From nothing held to nothing held. -/
def Balanced (t : List (Op ρ)) : Prop := replay t [] = some []

instance (t : List (Op ρ)) : Decidable (Balanced t) := inferInstanceAs (Decidable (_ = _))

/-- A trail is replayed piece by piece. -/
theorem replay_append (t u : List (Op ρ)) (held : List ρ) :
    replay (t ++ u) held = (replay t held).bind (replay u) := by
  induction t generalizing held with
  | nil => rfl
  | cons op t ih =>
    cases op with
    | acquire r => exact ih (r :: held)
    | release r =>
      rw [List.cons_append, replay, replay]
      split
      · exact ih (held.erase r)
      · rfl

/-- Pieces that leave one thing behind each, or nothing, leave them behind together. -/
theorem replay_flatMap {α : Type} {trail : α → List (Op ρ)} {leaks : α → Bool} {r : ρ}
    {xs : List α} (h : ∀ x ∈ xs, ∀ held,
      replay (trail x) held = some (if leaks x then r :: held else held)) (held : List ρ) :
    replay (xs.flatMap trail) held = some (List.replicate (xs.countP leaks) r ++ held) := by
  induction xs generalizing held with
  | nil => rfl
  | cons x xs ih =>
    have hrest := ih fun y hy => h y (List.mem_cons_of_mem x hy)
    rw [List.flatMap_cons, replay_append, h x List.mem_cons_self, Option.bind_some, hrest,
      List.countP_cons]
    cases leaks x with
    | false => rfl
    | true =>
      rw [if_pos rfl, if_pos rfl, List.replicate_succ', List.append_assoc]
      rfl

end Replay

end Lib.Ledger
