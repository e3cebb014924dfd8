import UsacSyscalls.Lib.Run

/-!
# Requests and replies over a network that may reorder

A client sends requests to a server that works on one at a time.  The server answers from a world
that others change at any time, and stops for good at a request it has no answer to.  Requests and
replies may overtake one another, and any of them may be lost; the client learns of a loss.

A `State` keeps every world so far and every call with the moment it was sent, so that a reply can
be compared with the worlds it may have come from.

* `reach_fresh` — a reply is what the service answers in one of the worlds since its request.
* `client_invariant` — the induction rule for the client: it has to be shown only that a reply from
  some world so far, and a loss, keep what is to be proved.
* `client_count` — no reply is received twice.
* `client_frozen` — a server that has stopped sends nothing new.
-/

set_option autoImplicit false

namespace Lib.Exchange

open Lib.Run

variable {κ ι ρ γ τ : Type}

/-- What the two parties do. -/
structure Protocol (κ ι ρ γ τ : Type) where
  /-- The reply to a request in a world; `none` when the server stops. -/
  serve : ι → κ → Option ρ
  /-- The requests that the client sends at an event of its own. -/
  requests : τ → List ι
  /-- What the client does with a reply; `none` is a loss. -/
  receive : ι → Option ρ → γ → γ

inductive Status (ρ : Type) where
  | waiting
  | answered (r : ρ)
  /-- The client has received the reply, or has learned of the loss. -/
  | settled
  deriving DecidableEq, Repr

/-- Whether a reply is under way. -/
def Status.isAnswered : Status ρ → Bool
  | .answered _ => true
  | _ => false

structure Call (ι ρ : Type) where
  request : ι
  /-- The number of the world in which it was sent. -/
  sentAt : Nat
  status : Status ρ

structure State (κ ι ρ γ : Type) where
  /-- Every world so far; the present one is the last. -/
  past : List κ
  calls : List (Call ι ρ)
  client : γ
  /-- Whether the server runs. -/
  up : Bool

def State.init (k : κ) (g : γ) : State κ ι ρ γ where
  past := [k]
  calls := []
  client := g
  up := true

inductive Actor (κ τ : Type) where
  | world (k : κ)
  | event (e : τ)
  | answer (i : Nat)
  | deliver (i : Nat)
  | lose (i : Nat)

section Steps

variable (p : Protocol κ ι ρ γ τ)

def State.send (s : State κ ι ρ γ) (requests : List ι) : State κ ι ρ γ :=
  { s with calls := s.calls ++ requests.map fun q => ⟨q, s.past.length - 1, .waiting⟩ }

/-- The server works on call `i`. -/
def answer (i : Nat) (s : State κ ι ρ γ) : Option (State κ ι ρ γ) :=
  match s.calls[i]?, s.past.getLast? with
  | some ⟨q, t, .waiting⟩, some k =>
    if s.up then
      match p.serve q k with
      | none => some { s with up := false }
      | some r => some { s with calls := s.calls.set i ⟨q, t, .answered r⟩ }
    else none
  | _, _ => none

/-- The client receives the reply to call `i`. -/
def deliver (i : Nat) (s : State κ ι ρ γ) : Option (State κ ι ρ γ) :=
  match s.calls[i]? with
  | some ⟨q, t, .answered r⟩ =>
    some { s with
      calls := s.calls.set i ⟨q, t, .settled⟩
      client := p.receive q (some r) s.client }
  | _ => none

/-- Call `i` is lost on its way. -/
def lose (i : Nat) (s : State κ ι ρ γ) : Option (State κ ι ρ γ) :=
  match s.calls[i]? with
  | some ⟨q, t, status⟩ =>
    match status with
    | .settled => none
    | _ =>
      some { s with
        calls := s.calls.set i ⟨q, t, .settled⟩
        client := p.receive q none s.client }
  | none => none

def step : Actor κ τ → State κ ι ρ γ → Option (State κ ι ρ γ)
  | .world k, s => some { s with past := s.past ++ [k] }
  | .event e, s => some (s.send (p.requests e))
  | .answer i, s => answer p i s
  | .deliver i, s => deliver p i s
  | .lose i, s => lose p i s

/-! ## What a step can do -/

variable {p} {s s' : State κ ι ρ γ}

theorem answer_cases {i : Nat} (h : answer p i s = some s') :
    ∃ q t k, s.calls[i]? = some ⟨q, t, .waiting⟩ ∧ s.past.getLast? = some k ∧ s.up = true ∧
      ((p.serve q k = none ∧ s' = { s with up := false }) ∨
        ∃ r, p.serve q k = some r ∧ s' = { s with calls := s.calls.set i ⟨q, t, .answered r⟩ }) := by
  unfold answer at h
  split at h
  · rename_i q t k hcall hlast
    split at h
    · rename_i hup
      refine ⟨q, t, k, hcall, hlast, hup, ?_⟩
      split at h
      · rename_i hserve
        cases h
        exact Or.inl ⟨hserve, rfl⟩
      · rename_i r hserve
        cases h
        exact Or.inr ⟨r, hserve, rfl⟩
    · cases h
  · cases h

theorem deliver_cases {i : Nat} (h : deliver p i s = some s') :
    ∃ q t r, s.calls[i]? = some ⟨q, t, .answered r⟩ ∧
      s' = { s with
        calls := s.calls.set i ⟨q, t, .settled⟩
        client := p.receive q (some r) s.client } := by
  unfold deliver at h
  split at h
  · rename_i q t r hcall
    cases h
    exact ⟨q, t, r, hcall, rfl⟩
  · cases h

theorem lose_cases {i : Nat} (h : lose p i s = some s') :
    ∃ q t status, s.calls[i]? = some ⟨q, t, status⟩ ∧ status ≠ .settled ∧
      s' = { s with
        calls := s.calls.set i ⟨q, t, .settled⟩
        client := p.receive q none s.client } := by
  unfold lose at h
  split at h
  · rename_i q t status hcall
    split at h
    · cases h
    · rename_i hopen
      cases h
      exact ⟨q, t, status, hcall, hopen, rfl⟩
  · cases h

end Steps

/-! ## Replies are fresh -/

section Fresh

variable {p : Protocol κ ι ρ γ τ} {s s' : State κ ι ρ γ}

/-- A reply, if there is one, is the answer in one of the worlds since the request. -/
def Call.Fresh (p : Protocol κ ι ρ γ τ) (past : List κ) (c : Call ι ρ) : Prop :=
  ∀ r, c.status = .answered r → ∃ k ∈ past.drop c.sentAt, p.serve c.request k = some r

theorem Call.Fresh.later {past : List κ} {c : Call ι ρ} (h : c.Fresh p past) (k : κ) :
    c.Fresh p (past ++ [k]) := by
  intro r hr
  obtain ⟨k', hmem, hserve⟩ := h r hr
  refine ⟨k', ?_, hserve⟩
  rw [List.drop_append]
  exact List.mem_append_left _ hmem

theorem settled_fresh (past : List κ) (q : ι) (t : Nat) :
    Call.Fresh p past ⟨q, t, .settled⟩ := by
  intro r hr
  cases hr

/-- What holds in every reachable state. -/
structure Inv (p : Protocol κ ι ρ γ τ) (s : State κ ι ρ γ) : Prop where
  fresh : ∀ c ∈ s.calls, c.Fresh p s.past
  sent : ∀ c ∈ s.calls, c.sentAt < s.past.length
  past : s.past ≠ []

theorem Inv.set (h : Inv p s) {i : Nat} {c : Call ι ρ} (hfresh : c.Fresh p s.past)
    (hsent : c.sentAt < s.past.length) (g : γ) (up : Bool) :
    Inv p { s with calls := s.calls.set i c, client := g, up := up } := by
  refine ⟨?_, ?_, h.past⟩
  · intro c' hc'
    rcases List.mem_or_eq_of_mem_set hc' with hold | rfl
    · exact h.fresh c' hold
    · exact hfresh
  · intro c' hc'
    rcases List.mem_or_eq_of_mem_set hc' with hold | rfl
    · exact h.sent c' hold
    · exact hsent

theorem step_inv {a : Actor κ τ} (h : Inv p s) (hs : step p a s = some s') : Inv p s' := by
  cases a with
  | world k =>
    cases hs
    refine ⟨fun c hc => (h.fresh c hc).later k, ?_, by simp⟩
    intro c hc
    have hsent := h.sent c hc
    show c.sentAt < (s.past ++ [k]).length
    rw [List.length_append]
    omega
  | event e =>
    cases hs
    have hpos := List.length_pos_iff.mpr h.past
    refine ⟨?_, ?_, h.past⟩
    · intro c hc
      rcases List.mem_append.mp hc with hold | hnew
      · exact h.fresh c hold
      · obtain ⟨q, -, rfl⟩ := List.mem_map.mp hnew
        intro r hr
        cases hr
    · intro c hc
      rcases List.mem_append.mp hc with hold | hnew
      · exact h.sent c hold
      · obtain ⟨q, -, rfl⟩ := List.mem_map.mp hnew
        show s.past.length - 1 < s.past.length
        omega
  | answer i =>
    obtain ⟨q, t, k, hcall, hlast, -, ⟨-, rfl⟩ | ⟨r, hserve, rfl⟩⟩ := answer_cases hs
    · exact ⟨h.fresh, h.sent, h.past⟩
    · have hsent := h.sent _ (List.mem_of_getElem? hcall)
      refine h.set (c := ⟨q, t, .answered r⟩) ?_ hsent s.client s.up
      intro r' hr'
      cases hr'
      refine ⟨k, ?_, hserve⟩
      obtain ⟨front, hfront⟩ := List.getLast?_eq_some_iff.mp hlast
      rw [hfront, List.length_append] at hsent
      show k ∈ s.past.drop t
      rw [hfront, List.drop_append_of_le_length (by simpa using Nat.lt_succ_iff.mp hsent)]
      exact List.mem_append_right _ List.mem_cons_self
  | deliver i =>
    obtain ⟨q, t, r, hcall, rfl⟩ := deliver_cases hs
    have hsent := h.sent _ (List.mem_of_getElem? hcall)
    exact h.set (settled_fresh _ q t) hsent _ s.up
  | lose i =>
    obtain ⟨q, t, status, hcall, -, rfl⟩ := lose_cases hs
    have hsent := h.sent _ (List.mem_of_getElem? hcall)
    exact h.set (settled_fresh _ q t) hsent _ s.up

theorem reach_inv {k : κ} {g : γ} (h : Reach (step p) (.init k g) s) : Inv p s := by
  refine h.invariant ⟨?_, ?_, by simp [State.init]⟩ fun a t t' ht hs => step_inv ht hs
  · intro c hc
    cases hc
  · intro c hc
    cases hc

/-- **A reply is fresh**: the answer of the service in some world since its request. -/
theorem reach_fresh {k : κ} {g : γ} (h : Reach (step p) (.init k g) s) {c : Call ι ρ}
    (hc : c ∈ s.calls) {r : ρ} (hr : c.status = .answered r) :
    ∃ k' ∈ s.past.drop c.sentAt, p.serve c.request k' = some r :=
  (reach_inv h).fresh c hc r hr

/-! ## The client -/

/-- **Induction for the client.**  `P` speaks of the client and of the worlds so far; it has to
    survive a new world, a reply from one of the worlds, and a loss. -/
theorem client_invariant {P : List κ → γ → Prop} {k : κ} {g : γ}
    (h : Reach (step p) (.init k g) s) (h₀ : P [k] g)
    (hworld : ∀ past k g, P past g → P (past ++ [k]) g)
    (hreply : ∀ past k q r g, k ∈ past → p.serve q k = some r → P past g →
      P past (p.receive q (some r) g))
    (hloss : ∀ past q g, P past g → P past (p.receive q none g)) : P s.past s.client := by
  have hstart : Inv p (.init k g : State κ ι ρ γ) := reach_inv (Relation.ReflTransGen.refl (r := _))
  refine (Lib.Run.Reach.invariant (I := fun s => Inv p s ∧ P s.past s.client) h ⟨hstart, h₀⟩ ?_).2
  rintro a t t' ⟨hinv, hP⟩ hs
  refine ⟨step_inv hinv hs, ?_⟩
  cases a with
  | world k => cases hs; exact hworld _ _ _ hP
  | event e => cases hs; exact hP
  | answer i =>
    obtain ⟨_, _, _, _, _, _, ⟨-, rfl⟩ | ⟨_, _, rfl⟩⟩ := answer_cases hs
    · exact hP
    · exact hP
  | deliver i =>
    obtain ⟨q, sent, r, hcall, rfl⟩ := deliver_cases hs
    obtain ⟨k', hk', hserve⟩ := hinv.fresh _ (List.mem_of_getElem? hcall) r rfl
    exact hreply _ _ _ _ _ (List.mem_of_mem_drop hk') hserve hP
  | lose i =>
    obtain ⟨_, _, _, _, _, rfl⟩ := lose_cases hs
    exact hloss _ _ _ hP

/-- Whether the client has received the reply to a call of some kind, or has learned of the
    loss. -/
def Call.settledOf (sel : ι → Bool) (c : Call ι ρ) : Bool :=
  match c.status with
  | .settled => sel c.request
  | _ => false

/-- One more call is settled. -/
theorem countP_set_settled {sel : ι → Bool} {calls : List (Call ι ρ)} {i : Nat} {c : Call ι ρ}
    (hcall : calls[i]? = some c) (hopen : c.settledOf sel = false) (q : ι) (t : Nat) :
    (calls.set i ⟨q, t, .settled⟩).countP (Call.settledOf sel) =
      calls.countP (Call.settledOf sel) + if sel q then 1 else 0 := by
  obtain ⟨hlt, rfl⟩ := List.getElem?_eq_some_iff.mp hcall
  rw [List.countP_set hlt, hopen]
  rfl

/-- **No reply counts twice**: what one reply to a call of some kind adds at most 1 to is at most
    the number of the calls of this kind that are settled. -/
theorem client_count {sel : ι → Bool} {m : γ → Nat} {k : κ} {g : γ}
    (h : Reach (step p) (.init k g) s)
    (hreceive : ∀ q r g, m (p.receive q r g) ≤ m g + if sel q then 1 else 0) :
    m s.client ≤ m g + s.calls.countP (Call.settledOf sel) := by
  refine Lib.Run.Reach.invariant
    (I := fun s => m s.client ≤ m g + s.calls.countP (Call.settledOf sel)) h
    (Nat.le_add_right _ _) fun a t t' ht hs => ?_
  cases a with
  | world k => cases hs; exact ht
  | event e =>
    cases hs
    show m t.client ≤ m g + (t.calls ++ _).countP _
    rw [List.countP_append]
    omega
  | answer i =>
    obtain ⟨q, sent, k, hcall, -, -, ⟨-, rfl⟩ | ⟨r, -, rfl⟩⟩ := answer_cases hs
    · exact ht
    · obtain ⟨hlt, hget⟩ := List.getElem?_eq_some_iff.mp hcall
      show m t.client ≤ m g + (t.calls.set i _).countP _
      rw [List.countP_set hlt, hget]
      exact ht
  | deliver i =>
    obtain ⟨q, sent, r, hcall, rfl⟩ := deliver_cases hs
    have hcount := @countP_set_settled ι ρ sel _ _ _ hcall rfl q sent
    have hone := hreceive q (some r) t.client
    show m (p.receive q (some r) t.client) ≤ m g + (t.calls.set i _).countP _
    omega
  | lose i =>
    obtain ⟨q, sent, status, hcall, hopen, rfl⟩ := lose_cases hs
    have hcount := @countP_set_settled ι ρ sel _ _ _ hcall
      (by cases status <;> first | rfl | exact absurd rfl hopen) q sent
    have hone := hreceive q none t.client
    show m (p.receive q none t.client) ≤ m g + (t.calls.set i _).countP _
    omega

/-- Along a run the client moves along every preorder that what it does with replies follows. -/
theorem client_related {R : γ → γ → Prop} (h : Reach (step p) s s') (hrefl : ∀ g, R g g)
    (htrans : ∀ {g₁ g₂ g₃}, R g₁ g₂ → R g₂ g₃ → R g₁ g₃)
    (hreceive : ∀ q r g, R g (p.receive q r g)) : R s.client s'.client := by
  refine Lib.Run.Reach.invariant (I := fun t => R s.client t.client) h (hrefl _)
    fun a t t' ht hs => ?_
  cases a with
  | world k => cases hs; exact ht
  | event e => cases hs; exact ht
  | answer i =>
    obtain ⟨_, _, _, _, _, _, ⟨-, rfl⟩ | ⟨_, _, rfl⟩⟩ := answer_cases hs
    · exact ht
    · exact ht
  | deliver i =>
    obtain ⟨q, sent, r, -, rfl⟩ := deliver_cases hs
    exact htrans ht (hreceive q (some r) t.client)
  | lose i =>
    obtain ⟨q, sent, status, -, -, rfl⟩ := lose_cases hs
    exact htrans ht (hreceive q none t.client)

/-- The server runs as long as every world so far lets it answer. -/
theorem reach_up {ok : κ → Prop} {k : κ} {g : γ} (h : Reach (step p) (.init k g) s)
    (hserve : ∀ q k, ok k → p.serve q k ≠ none) (hpast : ∀ k ∈ s.past, ok k) : s.up = true := by
  refine Lib.Run.Reach.invariant (I := fun s => (∀ k ∈ s.past, ok k) → s.up = true) h
    (fun _ => rfl) ?_ hpast
  intro a t t' ht hs hok
  cases a with
  | world k =>
    cases hs
    exact ht fun k' hk' => hok k' (List.mem_append_left _ hk')
  | event e => cases hs; exact ht hok
  | answer i =>
    obtain ⟨q, _, k, _, hlast, hup, ⟨hnone, rfl⟩ | ⟨_, _, rfl⟩⟩ := answer_cases hs
    · exact absurd hnone (hserve q k (hok k (List.mem_of_getLast? hlast)))
    · exact hup
  | deliver i =>
    obtain ⟨_, _, _, _, rfl⟩ := deliver_cases hs
    exact ht hok
  | lose i =>
    obtain ⟨_, _, _, _, _, rfl⟩ := lose_cases hs
    exact ht hok

/-- A call that waits can be answered and delivered while the server runs. -/
theorem answer_deliver {i : Nat} {q : ι} {t : Nat} {k : κ} {r : ρ}
    (hcall : s.calls[i]? = some ⟨q, t, .waiting⟩) (hlast : s.past.getLast? = some k)
    (hup : s.up = true) (hserve : p.serve q k = some r) :
    ∃ s₁ s₂, step p (.answer i) s = some s₁ ∧ step p (.deliver i) s₁ = some s₂ ∧
      s₂.client = p.receive q (some r) s.client := by
  have hlt := (List.getElem?_eq_some_iff.mp hcall).1
  have hanswer : step p (.answer i) s =
      some { s with calls := s.calls.set i ⟨q, t, .answered r⟩ } := by
    simp only [step, answer, hcall, hlast, hup, if_true, hserve]
  refine ⟨_, { s with
    calls := (s.calls.set i ⟨q, t, .answered r⟩).set i ⟨q, t, .settled⟩
    client := p.receive q (some r) s.client }, hanswer, ?_, rfl⟩
  simp only [step, deliver, List.getElem?_set_self hlt]

/-- **A server that has stopped** sends nothing new: without a reply under way the client stays as
    it is, as far as it ignores losses. -/
theorem client_frozen (h : Reach (step p) s s') (hdown : s.up = false)
    (hnone : ∀ c ∈ s.calls, c.status.isAnswered = false)
    (hloss : ∀ q g, p.receive q none g = g) : s'.client = s.client := by
  refine (Lib.Run.Reach.invariant (I := fun t => t.up = false ∧
    (∀ c ∈ t.calls, c.status.isAnswered = false) ∧ t.client = s.client) h
    ⟨hdown, hnone, rfl⟩ ?_).2.2
  rintro a t t' ⟨htdown, htnone, htclient⟩ hs
  cases a with
  | world k => cases hs; exact ⟨htdown, htnone, htclient⟩
  | event e =>
    cases hs
    refine ⟨htdown, fun c hc => ?_, htclient⟩
    rcases List.mem_append.mp hc with hold | hnew
    · exact htnone c hold
    · obtain ⟨q, -, rfl⟩ := List.mem_map.mp hnew
      rfl
  | answer i =>
    obtain ⟨_, _, _, _, _, hup, _⟩ := answer_cases hs
    rw [htdown] at hup
    cases hup
  | deliver i =>
    obtain ⟨q, sent, r, hcall, -⟩ := deliver_cases hs
    have hanswered : Status.isAnswered (.answered r) = false :=
      htnone _ (List.mem_of_getElem? hcall)
    cases hanswered
  | lose i =>
    obtain ⟨q, sent, status, hcall, -, rfl⟩ := lose_cases hs
    refine ⟨htdown, fun c hc => ?_, (hloss q t.client).trans htclient⟩
    rcases List.mem_or_eq_of_mem_set hc with hold | rfl
    · exact htnone c hold
    · rfl

end Fresh

end Lib.Exchange
