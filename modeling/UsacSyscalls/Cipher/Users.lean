import UsacSyscalls.Cipher.Layers
import UsacSyscalls.Cipher.Together

/-!
# Any number of users

Every user passes a file through a row of calls, one after the other; all users do so at the same
time, over the same files, each call with threads of its own.

* `reach_done_eq` — wherever a call is when it returns, it has said and written the same.
* `Sequence.chain` — a row of calls that one user makes alone is a row of components.
* `users_layers` — in every interleaving each user gets what the row computes alone; and the data
  itself, when the user takes every key twice.
-/

set_option autoImplicit false

namespace UsacSyscalls.Cipher

open Lib.Run Lib.Footprint

section Rows

variable {Path ι : Type} [DecidableEq Path]

/-- A call that has returned has said and written the same in every interleaving, also while
    threads of it still run. -/
theorem reach_done_eq {op : Mode} {env : Env} {c : Call Path} {fs₀ : FS Path} {s t : State Path}
    (hs : Reach (step op env c) (State.init fs₀) s) (hsd : s.pc = .done)
    (ht : Reach (step op env c) (State.init fs₀) t) (htd : t.pc = .done) :
    s.said = t.said ∧ s.fs = t.fs := by
  have hsettled : ∀ {u : State Path}, Reach (step op env c) (State.init fs₀) u → u.pc = .done →
      Settled env c fs₀ u := by
    intro u hu hpc
    have hinv := reach_inv hu
    unfold Inv at hinv
    rwa [hpc] at hinv
  have hs' := reach_said hs
  have ht' := reach_said ht
  rw [hsd] at hs'
  rw [htd] at ht'
  have hsaid : s.said = t.said := Option.some.inj (hs'.trans ht'.symm)
  have hhanded : s.handed = t.handed := congrArg Said.handed hsaid
  refine ⟨hsaid, ?_⟩
  rw [(hsettled hs hsd).filesAfter_eq, (hsettled ht htd).filesAfter_eq, hhanded]

/-- The call has returned to user space. -/
abbrev Returned (s : State Path) : Prop := s.pc = .done

theorem Party.finishes {p : Party Path} {fs : FS Path} {P : FS Path → Prop}
    (h : Returns p.op p.env p.call fs fun _ fs' => P fs') :
    Finishes Returned (State.init noFiles) p.component fs P := by
  have hall := Ensures.of_map (fun x : State Path × FS Path => x.1.withFs x.2) (component_step p)
    (t := (State.init noFiles, fs)) h
  refine ⟨hall.acc, fun x hr ht => (hall.post x hr ht).1, fun x hr hdone => ?_⟩
  obtain ⟨t, ht, -, htd, hP⟩ := h.exists_final
  have hx := Reach.of_map (fun x : State Path × FS Path => x.1.withFs x.2) (component_step p) hr
  rw [← (reach_done_eq hx hdone ht htd).2] at hP
  exact hP

/-- A row of calls that ends alone is a row of components, each of which finishes. -/
theorem Sequence.chain {Q : FS Path → Prop} :
    ∀ {stages : List (Party Path)} {fs : FS Path}, Sequence stages fs Q →
      Chain Returned (State.init noFiles) (stages.map Party.component) fs Q
  | [], _, h => h
  | p :: rest, fs, h => by
    have hp : Finishes Returned (State.init noFiles) p.component fs
        fun fs' => Sequence rest fs' Q := Party.finishes h
    exact ⟨hp.acc, hp.done_of_terminal, fun x hr hdone => Sequence.chain (hp.post x hr hdone)⟩

/-! ## All users -/

/-- The users, each with a row of calls. -/
def users (rows : ι → List (Party Path)) (i : ι) :
    Component (Option Actor) (Nat × State Path) Path (Option Bytes) :=
  row Returned (State.init noFiles) ((rows i).map Party.component)

/-- No user writes a file that another one names. -/
def UsersApart (rows : ι → List (Party Path)) : Prop :=
  ∀ i j, i ≠ j → ∀ p ∈ rows i, ∀ p' ∈ rows j, ¬ p'.call.Names p.call.output

omit [DecidableEq Path] in
theorem Linked.last_mem {fs : FS Path} {size : Nat} :
    ∀ {stages : List (Party Path)} {first last : Path}, Linked fs size first stages last →
      stages ≠ [] → ∃ p ∈ stages, p.call.output = last
  | [_], _, _, ⟨_, _, _, _, _, hlast⟩, _ => ⟨_, List.mem_cons_self, hlast⟩
  | _ :: p :: rest, _, _, ⟨_, _, _, _, _, hrest⟩, _ => by
    obtain ⟨p', hp', hlast⟩ := hrest.last_mem (List.cons_ne_nil p rest)
    exact ⟨p', List.mem_cons_of_mem _ hp', hlast⟩

/-- What decreases with every move of a user, besides the number of calls left. -/
def userProgress (row : List (Party Path)) (k : Nat) (s : State Path) : ℕ ×ₗ ℕ :=
  match row[k]? with
  | some p => toLex (progress p.call s)
  | none => toLex (0, 0)

theorem component_decreases {row : List (Party Path)} {k : Nat}
    {c : Component Actor (State Path) Path (Option Bytes)} {a : Actor}
    {x x' : State Path × FS Path} (hc : (row.map Party.component)[k]? = some c)
    (h : c.step a x = some x') : userProgress row k x'.1 < userProgress row k x.1 := by
  rw [List.getElem?_map, Option.map_eq_some_iff] at hc
  obtain ⟨p, hp, rfl⟩ := hc
  unfold userProgress
  rw [hp]
  exact component_progress h

theorem users_separate {rows : ι → List (Party Path)} (h : UsersApart rows) :
    Separate (users rows) := by
  rintro i j hij l ⟨c, hc, hw⟩ ⟨c', hc', hf⟩
  obtain ⟨p, hp, rfl⟩ := List.mem_map.mp hc
  obtain ⟨p', hp', rfl⟩ := List.mem_map.mp hc'
  have hl : l = p.call.output := hw
  subst hl
  exact h i j hij p hp p' hp' hf

theorem users_decrease {rows : ι → List (Party Path)} (i : ι) (a : Option Actor)
    (y y' : (Nat × State Path) × FS Path) (h : (users rows i).step a y = some y') :
    toLex ((rows i).length - y'.1.1, userProgress (rows i) y'.1.1 y'.1.2) <
      toLex ((rows i).length - y.1.1, userProgress (rows i) y.1.1 y.1.2) := by
  have hlt := row_decreases (userProgress (rows i)) (fun hc hx => component_decreases hc hx) h
  rwa [List.length_map] at hlt

variable [DecidableEq ι]

/-- **Any number of users at once**: when no user writes a file that another one names and the calls
    of each are `Linked`, then in every interleaving of all threads of all calls every user gets
    through the row of calls, the last file is the first one under all keys of the row, and the
    first one again when every key is taken an even number of times; no other file has changed. -/
theorem users_layers [Finite ι] {rows : ι → List (Party Path)} {first last : ι → Path}
    {D : ι → Bytes} {fs₀ : FS Path} (hapart : UsersApart rows) (hrows : ∀ i, rows i ≠ [])
    (hlinked : ∀ i, Linked fs₀ (D i).length (first i) (rows i) (last i))
    (hfirst : ∀ i, fs₀ (first i) = some (D i)) (hD : ∀ i, D i ≠ []) :
    Ensures (sharedStep (users rows))
      (fun b => (∀ i, (b.parts i).1 = (rows i).length ∧
          b.store (last i) = some (layers (keysOf fs₀ (rows i)) (D i)) ∧
          ∀ half, (keysOf fs₀ (rows i)).Perm (half ++ half) → b.store (last i) = some (D i)) ∧
        ∀ path, (∀ i, ∀ p ∈ rows i, path ≠ p.call.output) → b.store path = fs₀ path)
      ⟨fs₀, fun _ => (0, State.init noFiles)⟩ := by
  have halone : ∀ i, Ensures (users rows i).step
      (fun y => y.1.1 = ((rows i).map Party.component).length ∧
        y.2 (last i) = some (layers (keysOf fs₀ (rows i)) (D i))) ((0, State.init noFiles), fs₀) :=
    fun i => row_ensures (Sequence.chain (sequence_layers (hlinked i) (hfirst i) (hD i)))
  refine (separate_ensures (users_separate hapart)
    (fun i y => toLex ((rows i).length - y.1, userProgress (rows i) y.1 y.2))
    users_decrease halone).mono ?_
  rintro b ⟨hend, hrest⟩
  refine ⟨fun i => ?_, fun path hpath => hrest path fun i => ?_⟩
  · obtain ⟨m, ⟨hk, hlast⟩, hsame⟩ := hend i
    obtain ⟨p, hp, hout⟩ := (hlinked i).last_mem (hrows i)
    -- the last file is one that the user's own calls name
    have hstore : b.store (last i) = some (layers (keysOf fs₀ (rows i)) (D i)) :=
      (hsame _ ⟨p.component, List.mem_map_of_mem hp, .inr (.inl hout.symm)⟩).trans hlast
    refine ⟨hk.trans (List.length_map _), hstore, fun half hhalf => ?_⟩
    rw [hstore, layers_twice hhalf]
  · rintro ⟨c, hc, hw⟩
    obtain ⟨p, hp, rfl⟩ := List.mem_map.mp hc
    exact hpath i p hp hw

/-! ## Two users -/

/-- One file, which both encrypt and decrypt again, each with a key. -/
def twoUsers : Bool → List (Party Nat)
  | false => [plainStage .encrypt 0 1 8 2, plainStage .decrypt 1 2 8 5]
  | true => [plainStage .encrypt 0 3 9 1, plainStage .decrypt 3 4 9 3]

theorem twoUsers_linked (i : Bool) :
    Linked twoKeys 3 0 (twoUsers i) (if i then 4 else 2) := by
  have h8 : twoKeys 8 = some [7, 9] := rfl
  have h9 : twoKeys 9 = some [3] := rfl
  cases i
  · refine linked_plain h8 (by decide) (by decide) (threads_ideal (by decide)) (by decide) ?_
    exact linked_plain h8 (by decide) (by decide) (threads_ideal (by decide)) (by decide) rfl
  · refine linked_plain h9 (by decide) (by decide) (threads_ideal (by decide)) (by decide) ?_
    exact linked_plain h9 (by decide) (by decide) (threads_ideal (by decide)) (by decide) rfl

theorem twoUsers_apart : UsersApart twoUsers := by
  intro i j hij p hp p' hp' hnames
  cases i <;> cases j
  case false.false => exact hij rfl
  case true.true => exact hij rfl
  all_goals
    simp only [twoUsers, List.mem_cons, List.not_mem_nil, or_false] at hp hp'
    rcases hp with rfl | rfl <;> rcases hp' with rfl | rfl <;>
      simp [plainStage, Call.Names] at hnames

/-- Both get it back. -/
theorem users_layers_two :
    Ensures (sharedStep (users twoUsers))
      (fun b => b.store 2 = some [10, 20, 30] ∧ b.store 4 = some [10, 20, 30])
      ⟨twoKeys, fun _ => (0, State.init noFiles)⟩ := by
  have hrows : ∀ i, twoUsers i ≠ [] := fun i => by cases i <;> exact List.cons_ne_nil _ _
  refine (users_layers twoUsers_apart hrows twoUsers_linked (fun _ => rfl)
    (D := fun _ => [10, 20, 30]) fun _ => List.cons_ne_nil _ _).mono ?_
  rintro b ⟨hend, -⟩
  exact ⟨(hend false).2.2 [[7, 9]] (.refl _), (hend true).2.2 [[3]] (.refl _)⟩

end Rows

end UsacSyscalls.Cipher
