/-!
# C strings in byte buffers

A buffer `Holds` the text `t` when it starts with `t` and a NUL.  `snprintf` stores a text at an
offset, as much of it as fits with its NUL; storing at the end of the text that is held appends
(`Holds.snprintf`).  `snprintfAt` is the same call with a bound of its own: it agrees with
`snprintf` when the bound is what is left of the buffer (`snprintfAt_rest`).
-/

set_option autoImplicit false

namespace Lib.CString

/-- The bytes before the first NUL. -/
def cString (buf : List UInt8) : List UInt8 := buf.takeWhile (· != 0)

/-- `strlen`; `none` when the buffer holds no NUL and the scan leaves it. -/
def strlen (buf : List UInt8) : Option Nat :=
  if 0 ∈ buf then some (cString buf).length else none

theorem strlen_nil : strlen [] = none := rfl

/-- `snprintf(buf + off, sizeof(buf) - off, "%s", text)`: at most `sizeof(buf) - off` bytes are
    stored, the last of them a NUL; with no room at all nothing is stored. -/
def snprintf (buf : List UInt8) (off : Nat) (text : List UInt8) : List UInt8 :=
  if off < buf.length then
    let stored := text.take (buf.length - off - 1)
    buf.take off ++ (stored ++ 0 :: buf.drop (off + stored.length + 1))
  else buf

theorem snprintf_length (buf : List UInt8) (off : Nat) (text : List UInt8) :
    (snprintf buf off text).length = buf.length := by
  unfold snprintf
  split
  · simp only [List.length_append, List.length_cons, List.length_drop, List.length_take]
    omega
  · rfl

/-- The buffer starts with the text `t` and a NUL. -/
structure Holds (buf t : List UInt8) : Prop where
  starts : ∃ rest, buf = t ++ 0 :: rest
  noNul : (0 : UInt8) ∉ t

theorem Holds.length_lt {buf t : List UInt8} (h : Holds buf t) : t.length < buf.length := by
  obtain ⟨rest, rfl⟩ := h.starts
  simp only [List.length_append, List.length_cons]
  omega

theorem Holds.cString_eq {buf t : List UInt8} (h : Holds buf t) : cString buf = t := by
  obtain ⟨⟨rest, rfl⟩, hnul⟩ := h
  unfold cString
  rw [List.takeWhile_append_of_pos, List.takeWhile_cons_of_neg (by simp), List.append_nil]
  intro b hb
  simp only [bne_iff_ne, ne_eq]
  rintro rfl
  exact hnul hb

theorem Holds.strlen_eq {buf t : List UInt8} (h : Holds buf t) : strlen buf = some t.length := by
  have hmem : (0 : UInt8) ∈ buf := by
    obtain ⟨rest, rfl⟩ := h.starts
    simp
  unfold strlen
  rw [if_pos hmem, h.cString_eq]

/-- **Storing at the end of the text that is held appends to it**, as far as there is room. -/
theorem Holds.snprintf {buf t u : List UInt8} (h : Holds buf t) (hu : (0 : UInt8) ∉ u) :
    Holds (snprintf buf t.length u) (t ++ u.take (buf.length - t.length - 1)) := by
  have hlt := h.length_lt
  obtain ⟨⟨rest, hbuf⟩, hnul⟩ := h
  refine ⟨?_, ?_⟩
  · unfold CString.snprintf
    rw [if_pos hlt]
    have htake : buf.take t.length = t := by rw [hbuf, List.take_left]
    simp only [htake, List.append_assoc]
    exact ⟨_, rfl⟩
  · intro hmem
    rcases List.mem_append.mp hmem with hmem | hmem
    · exact hnul hmem
    · exact hu (List.mem_of_mem_take hmem)

/-- Appending to a text that may already have been cut off at the end of the buffer. -/
theorem Holds.snprintf_take {buf t u : List UInt8} (h : Holds buf (t.take (buf.length - 1)))
    (hu : (0 : UInt8) ∉ u) :
    Holds (CString.snprintf buf (t.take (buf.length - 1)).length u)
      ((t ++ u).take (buf.length - 1)) := by
  have happ := h.snprintf hu
  rw [List.length_take] at happ ⊢
  rwa [List.take_append, show buf.length - 1 - t.length =
    buf.length - min (buf.length - 1) t.length - 1 by omega]

/-- The first text stored in a buffer, whatever the buffer contained. -/
theorem holds_snprintf_zero (buf : List UInt8) {u : List UInt8} (hbuf : 0 < buf.length) (hu : (0 : UInt8) ∉ u) :
    Holds (snprintf buf 0 u) (u.take (buf.length - 1)) := by
  refine ⟨?_, fun h => hu (List.mem_of_mem_take h)⟩
  unfold snprintf
  rw [if_pos hbuf]
  exact ⟨_, rfl⟩

/-- The first bytes of a buffer, closed with a NUL, hold the first bytes of the text. -/
theorem Holds.truncate {buf t : List UInt8} (h : Holds buf t) (n : Nat) :
    Holds (buf.take n ++ [0]) (t.take n) := by
  obtain ⟨⟨rest, rfl⟩, hnul⟩ := h
  refine ⟨?_, fun hmem => hnul (List.mem_of_mem_take hmem)⟩
  by_cases hn : n ≤ t.length
  · refine ⟨[], ?_⟩
    rw [List.take_append_of_le_length hn]
  · obtain ⟨k, hk⟩ : ∃ k, n - t.length = k + 1 := ⟨n - t.length - 1, by omega⟩
    refine ⟨rest.take k ++ [0], ?_⟩
    rw [List.take_append, hk, List.take_succ_cons, List.append_assoc, List.cons_append]

/-! ## Bounds that the caller computes -/

/-- `snprintf(buf + off, bound, "%s", text)`: at most `bound` bytes are stored, the last of them a
    NUL; `none` when one of them lies outside of the buffer. -/
def snprintfAt (buf : List UInt8) (off bound : Nat) (text : List UInt8) : Option (List UInt8) :=
  if bound = 0 then some buf
  else
    let stored := text.take (bound - 1)
    if off + stored.length + 1 ≤ buf.length then
      some (buf.take off ++ (stored ++ 0 :: buf.drop (off + stored.length + 1)))
    else none

theorem snprintfAt_rest (buf : List UInt8) (off : Nat) (text : List UInt8) :
    snprintfAt buf off (buf.length - off) text = some (snprintf buf off text) := by
  unfold snprintfAt snprintf
  by_cases hoff : off < buf.length
  · have hstored : (text.take (buf.length - off - 1)).length ≤ buf.length - off - 1 :=
      List.length_take_le _ _
    rw [if_neg (by omega), if_pos (by omega), if_pos hoff]
  · rw [if_pos (by omega), if_neg hoff]

end Lib.CString
