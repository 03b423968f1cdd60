import Courier.Proofs.Auth.Run

/-!
# What a step can do

`Manager.step` goes through several functions, each with cases of its own. `Move m e m' out` lists
what comes of it: one constructor for each thing that an event `e` can do to a manager `m`, with the
circumstances in which it does so, the manager `m'` that is left and the outputs `out`. The ends of
a refresh and of an exchange have lists of their own, `RefreshEnd` and `ExchangeEnd`. Every step is
a move (`step_move`), so an invariant is proved by going through the moves, and nothing but this
file opens the functions behind `Manager.step`.

That somebody asks for a bearer when there is none to give and nothing to refresh is no move: such a
demand is answered before it comes to a refresh (`Demand.answer?_eq_none`).
-/

namespace Courier.Auth

open Courier.Http Courier.Store Courier.Time

/-- A demand comes to a refresh only if there is a credential that does not meet it. -/
theorem Demand.answer?_eq_none {config : Config} {d : Demand} {s : Slot}
    (h : d.answer? config s = none) :
    (∃ c, s = .authenticated c ∧ d.metBy config c = false) ∨ ∃ c, s = .refreshing c := by
  cases s with
  | authenticated c =>
    refine .inl ⟨c, rfl, ?_⟩
    simpa [Demand.answer?] using h
  | refreshing c => exact .inr ⟨c, rfl⟩
  | _ => cases h

/-- A slot that has been settled is not one of a refresh. -/
@[simp] theorem Slot.isRefreshing_settled (s : Slot) : s.settled.isRefreshing = false := by
  cases s <;> rfl

/-- Settling a slot leads to no exchange, unless there was one. -/
@[simp] theorem Slot.settled_eq_authorizing_iff {s : Slot} :
    s.settled = .authorizing ↔ s = .authorizing := by
  cases s <;> simp [Slot.settled]

/-- What stands in the place of the file once it has been removed, if it can be. -/
def clearFile (n : Node) : Node :=
  match n.remove with
  | .ok left => left
  | .error _ => n

namespace Manager

/-! ## Moves -/

/-- What the ruling `u` on the refresh `r` does to a manager, and what comes out of it. -/
inductive RefreshEnd (m : Manager) (r : Refresh) (u : Ruling) (now : Instant) :
    Manager → List Output → Prop where
  /-- There is no ruling. The refresh stays the one to join, if it was. -/
  | broken {flight : Option Flight} (hu : u = .brokenOff)
      (hf : m.flight = some (.running r.number) ∧ flight = some .brokenOff ∨
        m.flight ≠ some (.running r.number) ∧ flight = m.flight) :
      RefreshEnd m r u now
        { m with
          flight
          refreshes := m.refreshes.filter (·.number != r.number)
          waiters := m.waiters.filter (·.number != r.number) }
        (m.tellWaiters r (.error brokenOffFailure))
  /-- The refresh does not count any more. -/
  | late (hu : u ≠ .brokenOff) (hw : m.awaits r = false) :
      RefreshEnd m r u now
        { m with
          refreshes := m.refreshes.filter (·.number != r.number)
          waiters := m.waiters.filter (·.number != r.number) }
        (m.tellWaiters r (.error .notAuthenticated))
  /-- There is a new credential. -/
  | granted {c : Credential} (hu : u = .granted c) (hw : m.awaits r = true) :
      RefreshEnd m r u now
        { m with
          flight := none
          slot := .authenticated c
          file := m.file.map (keepCredential c now)
          refreshes := m.refreshes.filter (·.number != r.number)
          waiters := m.waiters.filter (·.number != r.number) }
        (m.tellWaiters r (.ok c.bearer))
  /-- There is none, and the old one is given up. -/
  | refused {f : Failure} (hu : u = .refused f) (hw : m.awaits r = true) :
      RefreshEnd m r u now
        { m with
          flight := none
          slot := .expired
          refreshes := m.refreshes.filter (·.number != r.number)
          waiters := m.waiters.filter (·.number != r.number) }
        (m.tellWaiters r (.error f))

/-- What the ruling `u` on the exchange `a` does to a manager, and what comes out of it. -/
inductive ExchangeEnd (m : Manager) (a : Authorization) (u : Ruling) (now : Instant) :
    Manager → List Output → Prop where
  /-- There is no ruling. -/
  | broken (hu : u = .brokenOff) :
      ExchangeEnd m a u now
        { m with authorizations := m.authorizations.filter (·.number != a.number) }
        [.brokenOff a.caller]
  /-- There is a credential, but the exchange does not count any more. -/
  | grantedLate {c : Credential} (hu : u = .granted c) (hg : m.generation ≠ a.generation) :
      ExchangeEnd m a u now
        { m with authorizations := m.authorizations.filter (·.number != a.number) }
        [.credential a.caller (.error .notAuthenticated)]
  /-- There is a credential. -/
  | granted {c : Credential} (hu : u = .granted c) (hg : m.generation = a.generation) :
      ExchangeEnd m a u now
        { m with
          slot := .authenticated c
          file := m.file.map (keepCredential c now)
          authorizations := m.authorizations.filter (·.number != a.number) }
        [.credential a.caller (.ok c)]
  /-- There is none, and the exchange does not count any more. -/
  | refusedLate {f : Failure} (hu : u = .refused f)
      (hg : ¬ (m.generation = a.generation ∧ m.slot = .authorizing)) :
      ExchangeEnd m a u now
        { m with authorizations := m.authorizations.filter (·.number != a.number) }
        [.credential a.caller (.error f)]
  /-- There is none, and things are as they were before. -/
  | refused {f : Failure} (hu : u = .refused f) (hg : m.generation = a.generation)
      (hs : m.slot = .authorizing) :
      ExchangeEnd m a u now
        { m with
          slot := a.previous.settled
          authorizations := m.authorizations.filter (·.number != a.number) }
        [.credential a.caller (.error f)]

/-- What an event does to a manager, and what comes out of it. -/
inductive Move (m : Manager) : Event → Manager → List Output → Prop where
  /-- A demand is met, or refused, at once. -/
  | answered {caller : Caller} {d : Demand} {r : Except Failure Bearer}
      (hd : d.answer? m.config m.slot = some r) :
      Move m (.demand caller d) m [.bearer caller r]
  /-- Somebody joins the refresh that is under way. -/
  | joined {caller : Caller} {d : Demand} {number : Nat}
      (hd : d.answer? m.config m.slot = none) (hf : m.flight = some (.running number)) :
      Move m (.demand caller d) { m with waiters := m.waiters ++ [⟨caller, number⟩] } []
  /-- Somebody joins a refresh that has been broken off. -/
  | stuck {caller : Caller} {d : Demand}
      (hd : d.answer? m.config m.slot = none) (hf : m.flight = some .brokenOff) :
      Move m (.demand caller d) m [.bearer caller (.error brokenOffFailure)]
  /-- A refresh begins. -/
  | started {caller : Caller} {d : Demand} {c : Credential}
      (hd : d.answer? m.config m.slot = none) (hf : m.flight = none)
      (hs : m.slot = .authenticated c ∨ m.slot = .refreshing c) :
      Move m (.demand caller d)
        { m with
          slot := .refreshing c
          flight := some (.running m.requests)
          generation := m.generation + 1
          requests := m.requests + 1
          refreshes := m.refreshes ++ [⟨m.requests, m.generation + 1, c⟩]
          waiters := m.waiters ++ [⟨caller, m.requests⟩] }
        [.request m.requests (m.config.refreshDraft c)]
  /-- The exchange of a code begins. -/
  | began {caller : Caller} {verifier code : String} :
      Move m (.authorize caller verifier code)
        { m with
          slot := .authorizing
          flight := none
          generation := m.generation + 1
          requests := m.requests + 1
          authorizations := m.authorizations ++ [⟨m.requests, caller, m.generation + 1, m.slot⟩] }
        [.request m.requests (m.config.exchangeDraft verifier code)]
  /-- Everything is forgotten. -/
  | forgotten {r : Except Fault Bool} :
      Move m .logout
        { m with
          slot := .unauthenticated
          flight := none
          generation := m.generation + 1
          file := m.file.map clearFile }
        [.forgotten r]
  /-- A caller goes away. -/
  | left {caller : Caller} :
      Move m (.leave caller)
        { m with
          authorizations := m.authorizations.filter (·.caller != caller)
          waiters := m.waiters.filter (·.caller != caller) }
        []
  /-- There is something else in the place of the file. -/
  | overwritten {n : Node} : Move m (.overwrite n) { m with file := m.file.map fun _ => n } []
  /-- Nobody waits for a reply. -/
  | unasked {number : Nat} {reply : Reply} {now : Instant}
      (hr : ∀ r ∈ m.refreshes, r.number ≠ number)
      (ha : ∀ a ∈ m.authorizations, a.number ≠ number) :
      Move m (.reply number reply now) m []
  /-- A refresh ends. -/
  | refreshEnds {reply : Reply} {now : Instant} {r : Refresh} {m' : Manager} {out : List Output}
      (hr : r ∈ m.refreshes)
      (h : RefreshEnd m r (.ofRefresh m.config r.credential now reply) now m' out) :
      Move m (.reply r.number reply now) m' out
  /-- An exchange ends. -/
  | exchangeEnds {reply : Reply} {now : Instant} {a : Authorization} {m' : Manager}
      {out : List Output} (hr : ∀ r ∈ m.refreshes, r.number ≠ a.number)
      (ha : a ∈ m.authorizations)
      (h : ExchangeEnd m a (.ofExchange m.config now reply) now m' out) :
      Move m (.reply a.number reply now) m' out

/-! ## Every step is a move -/

variable {m : Manager}

/-- A demand makes a move. -/
theorem onDemand_move (caller : Caller) (d : Demand) :
    Move m (.demand caller d) (m.onDemand caller d).1 (m.onDemand caller d).2 := by
  unfold onDemand
  cases hd : d.answer? m.config m.slot with
  | some r => exact .answered hd
  | none =>
    simp only [joinRefresh]
    split
    next number hf => exact .joined hd hf
    next hf => exact .stuck hd hf
    next hf =>
      obtain ⟨c, hs, hc⟩ : ∃ c, (m.slot = .authenticated c ∨ m.slot = .refreshing c) ∧
          m.slot.credential? = some c := by
        obtain ⟨c, hs, -⟩ | ⟨c, hs⟩ := Demand.answer?_eq_none hd
        · exact ⟨c, .inl hs, by rw [hs]; rfl⟩
        · exact ⟨c, .inr hs, by rw [hs]; rfl⟩
      simp only [hc]
      exact .started hd hf hs

/-- Logging out leaves nothing to sign requests with, nothing under way and no file. -/
theorem onLogout_eq (m : Manager) :
    ∃ r, m.onLogout =
      ({ m with
          slot := .unauthenticated
          flight := none
          generation := m.generation + 1
          file := m.file.map clearFile },
        [.forgotten r]) := by
  obtain ⟨config, file, slot, flight, generation, requests, refreshes, authorizations, waiters⟩ := m
  obtain _ | node := file
  · exact ⟨_, rfl⟩
  · cases node <;> exact ⟨_, rfl⟩

/-- Logging out makes a move. -/
theorem onLogout_move : Move m .logout m.onLogout.1 m.onLogout.2 := by
  obtain ⟨r, hr⟩ := onLogout_eq m
  rw [hr]
  exact .forgotten

/-- What becomes of a manager at the end of a refresh. -/
theorem onRefreshed_end (r : Refresh) (u : Ruling) (now : Instant) :
    RefreshEnd m r u now (m.onRefreshed r u now).1 (m.onRefreshed r u now).2 := by
  unfold onRefreshed
  cases u with
  | brokenOff =>
    refine .broken rfl ?_
    by_cases hf : m.flight = some (.running r.number)
    · exact .inl ⟨hf, if_pos hf⟩
    · exact .inr ⟨hf, if_neg hf⟩
  | granted c =>
    cases hw : m.awaits r with
    | true => exact .granted rfl hw
    | false => exact .late (by simp) hw
  | refused f =>
    cases hw : m.awaits r with
    | true => exact .refused rfl hw
    | false => exact .late (by simp) hw

/-- What becomes of a manager at the end of an exchange. -/
theorem onAuthorized_end (a : Authorization) (u : Ruling) (now : Instant) :
    ExchangeEnd m a u now (m.onAuthorized a u now).1 (m.onAuthorized a u now).2 := by
  unfold onAuthorized
  cases u with
  | brokenOff => exact .broken rfl
  | granted c =>
    by_cases hg : m.generation = a.generation
    · simp only [if_pos hg]
      exact .granted rfl hg
    · simp only [if_neg hg]
      exact .grantedLate rfl hg
  | refused f =>
    by_cases hg : m.generation = a.generation ∧ m.slot = .authorizing
    · simp only [if_pos hg]
      exact .refused rfl hg.1 hg.2
    · simp only [if_neg hg]
      exact .refusedLate rfl hg

/-- A reply makes a move. -/
theorem onReply_move (number : Nat) (reply : Reply) (now : Instant) :
    Move m (.reply number reply now) (m.onReply number reply now).1
      (m.onReply number reply now).2 := by
  unfold onReply
  cases hr : m.refreshes.find? (·.number == number) with
  | some r =>
    obtain rfl : r.number = number := by simpa using List.find?_some hr
    exact .refreshEnds (List.mem_of_find?_eq_some hr) (onRefreshed_end r _ now)
  | none =>
    have hr' : ∀ r ∈ m.refreshes, r.number ≠ number := by simpa using hr
    simp only
    cases ha : m.authorizations.find? (·.number == number) with
    | some a =>
      obtain rfl : a.number = number := by simpa using List.find?_some ha
      exact .exchangeEnds hr' (List.mem_of_find?_eq_some ha) (onAuthorized_end a _ now)
    | none => exact .unasked hr' (by simpa using ha)

/-- **Every step is a move.** -/
theorem step_move (m : Manager) (e : Event) : Move m e (m.step e).1 (m.step e).2 := by
  cases e with
  | demand caller d => exact onDemand_move caller d
  | authorize caller verifier code => exact .began
  | logout => exact onLogout_move
  | leave caller => exact .left
  | reply number reply now => exact onReply_move number reply now
  | overwrite n => exact .overwritten

end Manager

end Courier.Auth
