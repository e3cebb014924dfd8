/-!
# Two writers of one file

Each of two writers opens a file, which empties it, and later writes its result at offset zero in
one piece, which replaces the bytes the result covers and keeps the rest.  Nothing else orders the
four events.

* `Possible` — the contents the file can have, from how far the two writers have got.
* `Possible.truncate`, `Possible.write` — the events keep to it, `Possible.swap` makes the two
  writers interchangeable.
* `Possible.final` — once both have written, the file holds one of the results, or the shorter one
  with the tail of the longer one behind it.
-/

set_option autoImplicit false

namespace Lib.SharedFile

variable {β : Type}

/-- How far a writer has got. -/
inductive Phase where
  | outside
  | opened
  | written
  deriving DecidableEq, Repr

/-- `above` written at offset zero over `below`. -/
def overlay (below above : List β) : List β := above ++ below.drop above.length

@[simp] theorem overlay_nil (ys : List β) : overlay [] ys = ys := by
  simp [overlay]

theorem overlay_of_le {xs ys : List β} (h : xs.length ≤ ys.length) : overlay xs ys = ys := by
  unfold overlay
  rw [List.drop_of_length_le h, List.append_nil]

/-- The contents `xs` the file can have when the writers of `mine` and of `theirs` have got so
    far; `M` says that at some moment both had opened the file and neither had written it. -/
def Possible (mine theirs : List β) (M : Prop) (xs : List β) : Phase → Phase → Prop
  | .outside, .outside => True
  | .opened, .outside => xs = []
  | .outside, .opened => xs = []
  | .opened, .opened => xs = [] ∧ M
  | .written, .outside => xs = mine
  | .outside, .written => xs = theirs
  | .written, .opened => xs = [] ∨ (xs = mine ∧ M)
  | .opened, .written => xs = [] ∨ (xs = theirs ∧ M)
  | .written, .written =>
    xs = mine ∨ xs = theirs ∨ (M ∧ (xs = overlay theirs mine ∨ xs = overlay mine theirs))

variable {mine theirs xs : List β} {M : Prop} {p q : Phase}

theorem Possible.swap (h : Possible mine theirs M xs p q) : Possible theirs mine M xs q p := by
  cases p <;> cases q <;> simp only [Possible] at h ⊢
  case written.written =>
    rcases h with h | h | ⟨hm, h | h⟩
    · exact Or.inr (Or.inl h)
    · exact Or.inl h
    · exact Or.inr (Or.inr ⟨hm, Or.inr h⟩)
    · exact Or.inr (Or.inr ⟨hm, Or.inl h⟩)
  all_goals exact h

theorem Possible.mono {M' : Prop} (h : Possible mine theirs M xs p q) (hM : M → M') :
    Possible mine theirs M' xs p q := by
  cases p <;> cases q <;> simp only [Possible] at h ⊢
  case opened.opened => exact ⟨h.1, hM h.2⟩
  case written.opened | opened.written => exact h.imp id fun h => ⟨h.1, hM h.2⟩
  case written.written => exact h.imp id fun h => h.imp id fun h => ⟨hM h.1, h.2⟩
  all_goals exact h

/-- The first writer opens the file. -/
theorem Possible.truncate (h : Possible mine theirs M xs .outside q) (hM : q = .opened → M) :
    Possible mine theirs M [] .opened q := by
  cases q with
  | outside => rfl
  | opened => exact ⟨rfl, hM rfl⟩
  | written => exact Or.inl rfl

/-- The first writer writes its result. -/
theorem Possible.write (h : Possible mine theirs M xs .opened q) :
    Possible mine theirs M (overlay xs mine) .written q := by
  cases q with
  | outside =>
    simp only [Possible] at h ⊢
    rw [h, overlay_nil]
  | opened =>
    simp only [Possible] at h ⊢
    rw [h.1, overlay_nil]
    exact Or.inr ⟨rfl, h.2⟩
  | written =>
    simp only [Possible] at h ⊢
    rcases h with rfl | ⟨rfl, hm⟩
    · exact Or.inl (overlay_nil _)
    · exact Or.inr (Or.inr ⟨hm, Or.inl rfl⟩)

theorem overlay_cases (below above : List β) :
    overlay below above = above ∨
      (above.length < below.length ∧ overlay below above = above ++ below.drop above.length) := by
  by_cases h : below.length ≤ above.length
  · exact Or.inl (overlay_of_le h)
  · exact Or.inr ⟨by omega, rfl⟩

/-- **The outcome**: one of the results, or the shorter one with a stale tail, and that only if
    the two writers overlapped. -/
theorem Possible.final (h : Possible mine theirs M xs .written .written) :
    xs = mine ∨ xs = theirs ∨
      (M ∧ mine.length < theirs.length ∧ xs = mine ++ theirs.drop mine.length) ∨
      (M ∧ theirs.length < mine.length ∧ xs = theirs ++ mine.drop theirs.length) := by
  simp only [Possible] at h
  rcases h with h | h | ⟨hm, rfl | rfl⟩
  · exact Or.inl h
  · exact Or.inr (Or.inl h)
  · rcases overlay_cases theirs mine with he | ⟨hlt, he⟩
    · exact Or.inl he
    · exact Or.inr (Or.inr (Or.inl ⟨hm, hlt, he⟩))
  · rcases overlay_cases mine theirs with he | ⟨hlt, he⟩
    · exact Or.inr (Or.inl he)
    · exact Or.inr (Or.inr (Or.inr ⟨hm, hlt, he⟩))

end Lib.SharedFile
