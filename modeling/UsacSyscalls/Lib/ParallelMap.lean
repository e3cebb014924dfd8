/-!
# In-place parallel map by workers that own disjoint lanes

Several workers update one buffer in place.  Each owns a lane `lo ≤ n < hi` of positions and
walks it upwards, replacing the element `b` at position `n` by `f n b`.  Lanes are pairwise
apart, so whatever order the workers move in, the buffer is at every moment the original with
`f` applied exactly once at the positions some worker has passed (`Partial`).  When every
position has been passed, the buffer is the sequential map `xs.mapIdx f` (`Partial.eq_mapIdx`):
the result does not depend on the number of workers or on their schedule.
-/

set_option autoImplicit false

namespace Lib.ParallelMap

variable {β : Type}

/-- A worker's lane and the position it updates next. -/
structure Lane where
  lo : Nat
  cur : Nat
  hi : Nat
  deriving DecidableEq, Repr

/-- Some worker has passed position `n`. -/
def Covered (ls : List Lane) (n : Nat) : Prop := ∃ l ∈ ls, l.lo ≤ n ∧ n < l.cur

def Apart (l l' : Lane) : Prop := l.hi ≤ l'.lo

/-- `ys` is `xs` with `f` applied at the positions passed so far. -/
structure Partial (f : Nat → β → β) (xs ys : List β) (ls : List Lane) : Prop where
  length : ys.length = xs.length
  bounds : ∀ l ∈ ls, l.lo ≤ l.cur ∧ l.cur ≤ l.hi
  apart : ls.Pairwise Apart
  passed : ∀ n, Covered ls n → ys[n]? = xs[n]?.map (f n)
  ahead : ∀ n, ¬ Covered ls n → ys[n]? = xs[n]?

theorem Partial.start (f : Nat → β → β) (xs : List β) : Partial f xs xs [] :=
  ⟨rfl, by simp, by simp, by simp [Covered], fun _ _ => rfl⟩

theorem covered_append_fresh {ls : List Lane} {lo hi n : Nat} :
    Covered (ls ++ [⟨lo, lo, hi⟩]) n ↔ Covered ls n := by
  constructor
  · rintro ⟨l, hl, h1, h2⟩
    rcases List.mem_append.mp hl with hl | hl
    · exact ⟨l, hl, h1, h2⟩
    · simp only [List.mem_singleton] at hl
      subst hl
      simp only at h1 h2
      omega
  · rintro ⟨l, hl, h⟩
    exact ⟨l, List.mem_append_left _ hl, h⟩

/-- A new worker starts on a lane after all the others. -/
theorem Partial.spawn {f : Nat → β → β} {xs ys : List β} {ls : List Lane} (h : Partial f xs ys ls)
    {lo hi : Nat} (hle : lo ≤ hi) (hapart : ∀ l ∈ ls, l.hi ≤ lo) :
    Partial f xs ys (ls ++ [⟨lo, lo, hi⟩]) := by
  refine ⟨h.length, ?_, ?_, fun n hn => h.passed n (covered_append_fresh.mp hn),
    fun n hn => h.ahead n (fun hc => hn (covered_append_fresh.mpr hc))⟩
  · intro l hl
    rcases List.mem_append.mp hl with hl | hl
    · exact h.bounds l hl
    · simp only [List.mem_singleton] at hl
      subst hl
      exact ⟨Nat.le_refl _, hle⟩
  · rw [List.pairwise_append]
    refine ⟨h.apart, by simp, ?_⟩
    intro l hl l' hl'
    simp only [List.mem_singleton] at hl'
    subst hl'
    exact hapart l hl

/-- Lanes at different places of the list share no position. -/
theorem apart_of_ne {ls : List Lane} (h : ls.Pairwise Apart) {j k : Nat} {l l' : Lane}
    (hj : ls[j]? = some l) (hk : ls[k]? = some l') (hjk : j ≠ k) : Apart l l' ∨ Apart l' l := by
  obtain ⟨hjlt, rfl⟩ := List.getElem?_eq_some_iff.mp hj
  obtain ⟨hklt, rfl⟩ := List.getElem?_eq_some_iff.mp hk
  rw [List.pairwise_iff_getElem] at h
  rcases Nat.lt_or_gt_of_ne hjk with hlt | hlt
  · exact Or.inl (h j k hjlt hklt hlt)
  · exact Or.inr (h k j hklt hjlt hlt)

theorem covered_set_advance {ls : List Lane} {k : Nat} {l : Lane} (hk : ls[k]? = some l)
    (hlo : l.lo ≤ l.cur) (n : Nat) :
    Covered (ls.set k { l with cur := l.cur + 1 }) n ↔ Covered ls n ∨ n = l.cur := by
  obtain ⟨hlt, hget⟩ := List.getElem?_eq_some_iff.mp hk
  constructor
  · rintro ⟨l', hl', h1, h2⟩
    rcases List.mem_or_eq_of_mem_set hl' with hl' | rfl
    · exact Or.inl ⟨l', hl', h1, h2⟩
    · simp only at h1 h2
      by_cases hn : n = l.cur
      · exact Or.inr hn
      · exact Or.inl ⟨l, hget ▸ List.getElem_mem hlt, h1, by omega⟩
  · rintro (⟨l', hl', h1, h2⟩ | rfl)
    · obtain ⟨j, hj, rfl⟩ := List.mem_iff_getElem.mp hl'
      by_cases hjk : j = k
      · subst hjk
        rw [hget] at h1 h2
        exact ⟨_, List.mem_set hlt _, h1, by simp only; omega⟩
      · refine ⟨ls[j], ?_, h1, h2⟩
        refine List.mem_iff_getElem?.mpr ⟨j, ?_⟩
        rw [List.getElem?_set_ne (Ne.symm hjk), List.getElem?_eq_getElem hj]
    · exact ⟨_, List.mem_set hlt _, hlo, by simp⟩

/-- A position ahead of a worker in its own lane has not been passed by anyone. -/
theorem Partial.not_covered {f : Nat → β → β} {xs ys : List β} {ls : List Lane}
    (h : Partial f xs ys ls) {k : Nat} {l : Lane} (hk : ls[k]? = some l) (hlt : l.cur < l.hi) :
    ¬ Covered ls l.cur := by
  rintro ⟨l', hl', h1, h2⟩
  obtain ⟨j, hj⟩ := List.mem_iff_getElem?.mp hl'
  have hb := h.bounds l (List.mem_of_getElem? hk)
  have hb' := h.bounds l' hl'
  by_cases hjk : j = k
  · subst hjk
    rw [hk] at hj
    simp only [Option.some.injEq] at hj
    subst hj
    omega
  · rcases apart_of_ne h.apart hj hk hjk with ha | ha <;> simp only [Apart] at ha <;> omega

/-- **One worker's update keeps the buffer a partial map.** -/
theorem Partial.advance {f : Nat → β → β} {xs ys : List β} {ls : List Lane} (h : Partial f xs ys ls)
    {k : Nat} {l : Lane} (hk : ls[k]? = some l) (hlt : l.cur < l.hi) :
    Partial f xs (ys.modify l.cur (f l.cur)) (ls.set k { l with cur := l.cur + 1 }) := by
  have hb := h.bounds l (List.mem_of_getElem? hk)
  have hcov := covered_set_advance hk hb.1
  have hfresh := h.not_covered hk hlt
  refine ⟨by rw [List.length_modify]; exact h.length, ?_, ?_, ?_, ?_⟩
  · intro l' hl'
    rcases List.mem_or_eq_of_mem_set hl' with hl' | rfl
    · exact h.bounds l' hl'
    · simp only; omega
  · obtain ⟨hklt, hget⟩ := List.getElem?_eq_some_iff.mp hk
    rw [List.pairwise_iff_getElem]
    intro i j hi hj hij
    have hap := List.pairwise_iff_getElem.mp h.apart i j (by simpa using hi) (by simpa using hj) hij
    simp only [Apart, List.getElem_set] at hap ⊢
    split
    · split
      · omega
      · rename_i hik _; subst hik; rw [hget] at hap; exact hap
    · split
      · rename_i hjk; subst hjk; rw [hget] at hap; exact hap
      · exact hap
  · intro n hn
    rcases (hcov n).mp hn with hn | rfl
    · have hne : l.cur ≠ n := by rintro rfl; exact hfresh hn
      rw [List.getElem?_modify_ne _ _ hne, h.passed n hn]
    · rw [List.getElem?_modify_eq, h.ahead _ hfresh]
      rfl
  · intro n hn
    have hn' : ¬ Covered ls n ∧ n ≠ l.cur := by
      refine ⟨fun hc => hn ((hcov n).mpr (Or.inl hc)), fun he => hn ((hcov n).mpr (Or.inr he))⟩
    rw [List.getElem?_modify_ne _ _ (Ne.symm hn'.2), h.ahead n hn'.1]

/-- **When every position has been passed the buffer is the sequential map.** -/
theorem Partial.eq_mapIdx {f : Nat → β → β} {xs ys : List β} {ls : List Lane} (h : Partial f xs ys ls)
    (hall : ∀ n, n < xs.length → Covered ls n) : ys = xs.mapIdx f := by
  apply List.ext_getElem?
  intro n
  rw [List.getElem?_mapIdx]
  by_cases hn : n < xs.length
  · exact h.passed n (hall n hn)
  · rw [List.getElem?_eq_none (by rw [h.length]; omega), List.getElem?_eq_none (by omega)]
    rfl

end Lib.ParallelMap
