/-!
# A log that loses its oldest records

Every record ever appended has a number, its position in the history; the buffer is a window on
the history that slides forward: appending moves its end, dropping the oldest record its start.
A reader with a cursor gets the oldest surviving record whose number is not below the cursor.

* `getLine_eq_some`, `getLine_eq_none` — a read takes the first of the records that are still
  unread.
* `slice_succ`, `slice_append` — the records between two numbers, read one after another while
  the log grows.
* `last_eq_slice` — the last records as a slice.
-/

set_option autoImplicit false

namespace Lib

/-- A numbered log. -/
structure RingBuffer (α : Type) where
  history : List α
  /-- The number of the oldest record that has not been dropped. -/
  first : Nat
  first_le : first ≤ history.length

namespace RingBuffer

variable {α : Type}

/-- The number the next record will get. -/
def next (g : RingBuffer α) : Nat := g.history.length

/-- All records ever appended, each with its number. -/
def numbered (g : RingBuffer α) : List (α × Nat) := g.history.zipIdx

/-- The surviving records. -/
def records (g : RingBuffer α) : List (α × Nat) := g.numbered.drop g.first

def append (g : RingBuffer α) (a : α) : RingBuffer α where
  history := g.history ++ [a]
  first := g.first
  first_le := by
    have := g.first_le
    simp only [List.length_append, List.length_singleton]
    omega

/-- `none` when there is nothing to drop. -/
def dropOldest (g : RingBuffer α) : Option (RingBuffer α) :=
  if h : g.first < g.history.length then some ⟨g.history, g.first + 1, h⟩ else none

/-- The number from which a reader goes on. -/
def position (g : RingBuffer α) (cursor : Nat) : Nat := max cursor g.first

/-- The oldest surviving record at or after the cursor, and the cursor after it. -/
def getLine (g : RingBuffer α) (cursor : Nat) : Option ((α × Nat) × Nat) :=
  g.numbered[g.position cursor]?.map fun line => (line, g.position cursor + 1)

/-- The surviving records at or after the cursor. -/
def unread (g : RingBuffer α) (cursor : Nat) : List (α × Nat) := g.numbered.drop (g.position cursor)

/-- The last `k` records; all of them when there are fewer. -/
def last (g : RingBuffer α) (k : Nat) : List (α × Nat) := g.records.drop (g.records.length - k)

/-- The records with numbers from `a` below `b`, dropped or not. -/
def slice (g : RingBuffer α) (a b : Nat) : List (α × Nat) := (g.numbered.take b).drop a

/-- The number of the first of the last `k` records. -/
def lastFrom (g : RingBuffer α) (k : Nat) : Nat := max g.first (g.next - k)

/-! ## Lengths and numbers -/

@[simp] theorem numbered_length (g : RingBuffer α) : g.numbered.length = g.next := by
  simp [numbered, next]

theorem first_le_next (g : RingBuffer α) : g.first ≤ g.next := g.first_le

@[simp] theorem records_length (g : RingBuffer α) : g.records.length = g.next - g.first := by
  simp [records]

@[simp] theorem unread_length (g : RingBuffer α) (cursor : Nat) :
    (g.unread cursor).length = g.next - g.position cursor := by
  simp [unread]

theorem slice_length (g : RingBuffer α) (a b : Nat) :
    (g.slice a b).length = min b g.next - a := by
  simp [slice]

theorem last_length (g : RingBuffer α) (k : Nat) :
    (g.last k).length = min k (g.next - g.first) := by
  simp only [last, List.length_drop, records_length]
  omega

/-- The number of a record is its position in the history. -/
theorem number_eq {g : RingBuffer α} {i : Nat} {line : α × Nat}
    (h : g.numbered[i]? = some line) : line.2 = i := by
  unfold numbered at h
  rw [List.getElem?_zipIdx] at h
  obtain ⟨a, -, rfl⟩ := Option.map_eq_some_iff.mp h
  exact Nat.zero_add i

/-- The first of the records from a number on has this number. -/
theorem head?_number {g : RingBuffer α} {i : Nat} {line : α × Nat}
    (h : (g.numbered.drop i).head? = some line) : line.2 = i := by
  rw [List.head?_drop] at h
  exact number_eq h

/-! ## Reading -/

/-- **A read** takes the first unread record. -/
theorem getLine_eq_some {g : RingBuffer α} {cursor cursor' : Nat} {line : α × Nat}
    (h : g.getLine cursor = some (line, cursor')) :
    g.numbered[g.position cursor]? = some line ∧ g.position cursor < g.next ∧
      cursor' = g.position cursor + 1 ∧ g.unread cursor = line :: g.unread cursor' := by
  obtain ⟨l, hl, he⟩ := Option.map_eq_some_iff.mp h
  simp only [Prod.mk.injEq] at he
  obtain ⟨rfl, rfl⟩ := he
  have hlt : g.position cursor < g.numbered.length := (List.getElem?_eq_some_iff.mp hl).1
  refine ⟨hl, by simpa using hlt, rfl, ?_⟩
  have hpos : g.position (g.position cursor + 1) = g.position cursor + 1 := by
    unfold position
    omega
  unfold unread
  rw [hpos, List.drop_eq_getElem_cons hlt, (List.getElem?_eq_some_iff.mp hl).2]

/-- A read fails only when nothing is left. -/
theorem getLine_eq_none {g : RingBuffer α} {cursor : Nat} (h : g.getLine cursor = none) :
    g.unread cursor = [] := by
  unfold getLine at h
  rw [Option.map_eq_none_iff, List.getElem?_eq_none_iff] at h
  exact List.drop_eq_nil_iff.mpr h

theorem getLine_of_nil {g : RingBuffer α} {cursor : Nat} (h : g.unread cursor = []) :
    g.getLine cursor = none := by
  cases hget : g.getLine cursor with
  | none => rfl
  | some p =>
    obtain ⟨-, -, -, hcons⟩ := getLine_eq_some hget
    rw [h] at hcons
    cases hcons

theorem getLine_of_cons {g : RingBuffer α} {cursor : Nat} {line : α × Nat}
    {lines : List (α × Nat)} (h : g.unread cursor = line :: lines) :
    ∃ cursor', g.getLine cursor = some (line, cursor') ∧ g.unread cursor' = lines := by
  cases hget : g.getLine cursor with
  | none =>
    rw [getLine_eq_none hget] at h
    cases h
  | some p =>
    obtain ⟨line', cursor'⟩ := p
    obtain ⟨-, -, -, hcons⟩ := getLine_eq_some hget
    rw [h] at hcons
    cases hcons
    exact ⟨cursor', rfl, rfl⟩

/-! ## Slices -/

/-- A slice depends on the history alone. -/
theorem slice_congr {g g' : RingBuffer α} (h : g.history = g'.history) (a b : Nat) :
    g.slice a b = g'.slice a b := by
  unfold slice numbered
  rw [h]

theorem slice_of_le (g : RingBuffer α) {a b : Nat} (h : b ≤ a) : g.slice a b = [] := by
  refine List.drop_eq_nil_iff.mpr ?_
  rw [List.length_take]
  omega

theorem slice_succ {g : RingBuffer α} {a b : Nat} {line : α × Nat} (ha : a ≤ b)
    (h : g.numbered[b]? = some line) : g.slice a (b + 1) = g.slice a b ++ [line] := by
  have hlt : b < g.numbered.length := (List.getElem?_eq_some_iff.mp h).1
  unfold slice
  rw [List.take_add_one, h, List.drop_append_of_le_length (by rw [List.length_take]; omega)]
  rfl

/-- The last `k` records are those from `lastFrom` on. -/
theorem last_eq_drop (g : RingBuffer α) (k : Nat) : g.last k = g.numbered.drop (g.lastFrom k) := by
  have := g.first_le_next
  unfold last records lastFrom
  rw [List.drop_drop, List.length_drop, numbered_length]
  congr 1
  omega

theorem last_eq_slice (g : RingBuffer α) (k : Nat) : g.last k = g.slice (g.lastFrom k) g.next := by
  rw [last_eq_drop, slice, List.take_of_length_le (by simp)]

theorem last_min (g : RingBuffer α) (k : Nat) : g.last (min k g.records.length) = g.last k := by
  have := g.first_le_next
  rw [last_eq_drop, last_eq_drop, records_length]
  unfold lastFrom
  congr 1
  omega

/-- The number of the oldest of the last `k` records. -/
theorem number_of_last {g : RingBuffer α} {k : Nat} {line : α × Nat}
    (h : (g.last k).head? = some line) : line.2 = g.lastFrom k := by
  rw [last_eq_drop] at h
  exact head?_number h

/-- The number of a surviving record, counted from the end. -/
theorem number_of_split {g : RingBuffer α} {pre post : List (α × Nat)} {line : α × Nat}
    (h : g.records = pre ++ line :: post) : line.2 + post.length + 1 = g.next := by
  have hfirst := g.first_le_next
  have hlength := g.records_length
  have hget : g.records[pre.length]? = some line := by
    rw [h, List.getElem?_append_right (Nat.le_refl _), Nat.sub_self]
    rfl
  rw [h, List.length_append, List.length_cons] at hlength
  unfold records at hget
  rw [List.getElem?_drop] at hget
  have hnumber := number_eq hget
  omega

/-! ## Writing -/

@[simp] theorem append_next (g : RingBuffer α) (a : α) : (g.append a).next = g.next + 1 := by
  simp [append, next]

@[simp] theorem append_first (g : RingBuffer α) (a : α) : (g.append a).first = g.first := rfl

/-- What is in the history stays there. -/
theorem slice_append (g : RingBuffer α) (x : α) {a b : Nat} (h : b ≤ g.next) :
    (g.append x).slice a b = g.slice a b := by
  unfold slice numbered append
  rw [List.zipIdx_append, List.take_append_of_le_length (by rw [List.length_zipIdx]; exact h)]

theorem dropOldest_eq_some {g g' : RingBuffer α} (h : g.dropOldest = some g') :
    g.first < g.next ∧ g'.first = g.first + 1 ∧ g'.history = g.history := by
  unfold dropOldest at h
  split at h
  · rename_i hlt
    cases h
    exact ⟨hlt, rfl, rfl⟩
  · cases h

end RingBuffer

end Lib
