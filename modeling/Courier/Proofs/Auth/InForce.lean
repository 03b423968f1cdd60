import Courier.Proofs.Auth.SingleFlight

/-!
# The credential in force

Old credentials outlive their time in two places: in the refreshes that the issuer has not answered,
and in what exchanges have found in the slot and put back if the code is refused. None of these
copies comes into use again once another credential, or none, has taken their place.

What settles which credential there is can be told from what happens. Logging out and the failure of
a refresh that counts give up whatever there was; a grant that counts commits to a new credential
(`Manager.settles?`). A reply counts if its request is of the current generation, which is to say
that nothing has superseded the request. The credential that is in force after a run,
`Manager.inForce`, is that of the latest settlement, or that which the manager was made with.
`OnlyInForce` lists what this is good for, and **`only_in_force`** says that it holds in every run
and at whatever happens next:

* The credential in the slot is the one in force. So is the one behind every bearer that is handed
  out, the one that a refresh is asked for, and the one that is written to the file.
* Once everything has been forgotten, or a refresh has failed, this is how it stays, and the issuer
  is asked for nothing, until somebody logs out or brings back a code (`Idle.restsIn`).

Behind it is what one step can do: a credential that could come into use, from the slot or from what
the exchange that counts has found in it, could do so before, or is committed to (`Move.reaches`).
-/

namespace Courier.Auth

open Courier.Http Courier.Store Courier.Time

/-! ## Settlements -/

/-- What becomes of the credential in force. -/
inductive Settlement where
  /-- There is a new one. -/
  | committed (c : Credential)
  /-- There is none any more. -/
  | givenUp
  deriving DecidableEq

/-- The credential in force after a settlement. -/
def Settlement.credential? : Settlement → Option Credential
  | .committed c => some c
  | .givenUp => none

/-- What is settled by the ruling on a refresh that counts. -/
def Ruling.settlesRefresh? : Ruling → Option Settlement
  | .granted c => some (.committed c)
  | .refused _ => some .givenUp
  | .brokenOff => none

/-- What is settled by the ruling on an exchange that counts. If the code is refused there is
whatever there was before. -/
def Ruling.settlesExchange? : Ruling → Option Settlement
  | .granted c => some (.committed c)
  | .refused _ => none
  | .brokenOff => none

/-- A refresh commits to what it is granted. -/
@[simp] theorem Ruling.settlesRefresh?_eq_committed_iff {u : Ruling} {c : Credential} :
    u.settlesRefresh? = some (.committed c) ↔ u = .granted c := by
  cases u <;> simp [settlesRefresh?]

/-- A refresh gives up the credential if it is refused. -/
@[simp] theorem Ruling.settlesRefresh?_eq_givenUp_iff {u : Ruling} :
    u.settlesRefresh? = some .givenUp ↔ ∃ f, u = .refused f := by
  cases u <;> simp [settlesRefresh?]

/-- An exchange commits to what it is granted. -/
@[simp] theorem Ruling.settlesExchange?_eq_committed_iff {u : Ruling} {c : Credential} :
    u.settlesExchange? = some (.committed c) ↔ u = .granted c := by
  cases u <;> simp [settlesExchange?]

/-- An exchange gives up nothing. -/
theorem Ruling.settlesExchange?_ne_givenUp (u : Ruling) :
    u.settlesExchange? ≠ some .givenUp := by
  cases u <;> simp [settlesExchange?]

/-- Settling a slot leaves the credential in it. -/
@[simp] theorem Slot.credential?_settled (s : Slot) : s.settled.credential? = s.credential? := by
  cases s <;> rfl

namespace Manager

variable {m m' : Manager} {e : Event} {out : List Output}

/-- What an event settles. A reply settles something if its request is of the current generation. -/
def settles? (m : Manager) : Event → Option Settlement
  | .logout => some .givenUp
  | .reply number reply now =>
    match m.refreshes.find? fun r => r.number == number && r.generation == m.generation with
    | some r => (Ruling.ofRefresh m.config r.credential now reply).settlesRefresh?
    | none =>
      match m.authorizations.find? fun a => a.number == number && a.generation == m.generation with
      | some _ => (Ruling.ofExchange m.config now reply).settlesExchange?
      | none => none
  | _ => none

/-- The latest settlement in a run. -/
def latest? : Manager → List Event → Option Settlement
  | _, [] => none
  | m, e :: es => ((m.step e).1.latest? es).or (m.settles? e)

/-- The credential in force after some events. -/
def inForce (m : Manager) (es : List Event) : Option Credential :=
  (m.latest? es).elim m.slot.credential? Settlement.credential?

/-- What is settled in the second part of a run replaces what is settled in the first one. -/
theorem latest?_append (m : Manager) (es fs : List Event) :
    m.latest? (es ++ fs) = ((m.after es).latest? fs).or (m.latest? es) := by
  induction es generalizing m with
  | nil => simp [latest?]
  | cons e es ih => simp [latest?, ih, Option.or_assoc]

/-- A further event leaves the credential in force, unless it settles something. -/
theorem inForce_concat (m : Manager) (es : List Event) (e : Event) :
    m.inForce (es ++ [e]) =
      ((m.after es).settles? e).elim (m.inForce es) Settlement.credential? := by
  unfold inForce
  rw [latest?_append]
  cases hs : (m.after es).settles? e <;> simp [latest?, hs]

/-! ## What replies settle -/

/-- Where only one element can be found, it is found if it is sought. -/
theorem find?_eq_ite {α : Type} {l : List α} {p : α → Bool} {x : α} (hx : x ∈ l)
    (hunique : ∀ y ∈ l, p y = true → y = x) : l.find? p = if p x then some x else none := by
  cases hfound : l.find? p with
  | none =>
    have hp : ¬ p x = true := List.find?_eq_none.mp hfound x hx
    rw [if_neg hp]
  | some y =>
    have hp := List.find?_some hfound
    obtain rfl := hunique y (List.mem_of_find?_eq_some hfound) hp
    rw [if_pos hp]

/-- No request bears a number that is not found. -/
theorem find?_eq_none_of_ne {α : Type} {l : List α} {number : α → Nat} {n : Nat} {p : α → Bool}
    (h : ∀ x ∈ l, number x ≠ n) : l.find? (fun x => number x == n && p x) = none := by
  rw [List.find?_eq_none]
  intro x hx
  simp [h x hx]

/-- The reply to a refresh settles something if the refresh is of the current generation. -/
theorem Numbered.settles?_refresh (h : m.Numbered) {r : Refresh} (hr : r ∈ m.refreshes)
    (reply : Reply) (now : Instant) :
    m.settles? (.reply r.number reply now) =
      if r.generation = m.generation then
        (Ruling.ofRefresh m.config r.credential now reply).settlesRefresh?
      else none := by
  have hfound : m.refreshes.find? (fun s => s.number == r.number && s.generation == m.generation) =
      if r.generation = m.generation then some r else none := by
    rw [find?_eq_ite hr]
    · simp
    · intro s hs hp
      rw [Bool.and_eq_true, beq_iff_eq] at hp
      exact Stamped.refresh_inj h hs hr hp.1
  have hnone := find?_eq_none_of_ne (p := fun a => a.generation == m.generation)
    fun a ha => (Stamped.apart h r hr a ha).symm
  by_cases hg : r.generation = m.generation
  · rw [if_pos hg] at hfound
    simp only [settles?, hfound, if_pos hg]
  · rw [if_neg hg] at hfound
    simp only [settles?, hfound, hnone, if_neg hg]

/-- The reply to an exchange settles something if the exchange is of the current generation. -/
theorem Numbered.settles?_exchange (h : m.Numbered) {a : Authorization}
    (ha : a ∈ m.authorizations) (reply : Reply) (now : Instant) :
    m.settles? (.reply a.number reply now) =
      if a.generation = m.generation then (Ruling.ofExchange m.config now reply).settlesExchange?
      else none := by
  have hnone := find?_eq_none_of_ne (p := fun r => r.generation == m.generation)
    fun r hr => Stamped.apart h r hr a ha
  have hfound :
      m.authorizations.find? (fun b => b.number == a.number && b.generation == m.generation) =
        if a.generation = m.generation then some a else none := by
    rw [find?_eq_ite ha]
    · simp
    · intro b hb hp
      rw [Bool.and_eq_true, beq_iff_eq] at hp
      exact Stamped.authorization_inj h hb ha hp.1
  by_cases hg : a.generation = m.generation
  · rw [if_pos hg] at hfound
    simp only [settles?, hnone, hfound, if_pos hg]
  · rw [if_neg hg] at hfound
    simp only [settles?, hnone, hfound, if_neg hg]

/-- A reply that nobody waits for settles nothing. -/
theorem settles?_unasked {number : Nat} (hr : ∀ r ∈ m.refreshes, r.number ≠ number)
    (ha : ∀ a ∈ m.authorizations, a.number ≠ number) (reply : Reply) (now : Instant) :
    m.settles? (.reply number reply now) = none := by
  simp only [settles?]
  rw [find?_eq_none_of_ne hr, find?_eq_none_of_ne ha]

/-! ## What could come into use -/

/-- A credential could come into use: it is in the slot, or the exchange that counts has found it
there. -/
def Reaches (m : Manager) (c : Credential) : Prop :=
  m.slot.credential? = some c ∨
    ∃ a ∈ m.authorizations, a.generation = m.generation ∧ a.previous.credential? = some c

variable {c : Credential}

/-- Where no exchange counts, only the credential in the slot could come into use. -/
theorem Reaches.slot (h : m.Reaches c) (ha : ∀ a ∈ m.authorizations, a.generation ≠ m.generation) :
    m.slot.credential? = some c := by
  rcases h with hslot | ⟨a, hmem, hg, -⟩
  · exact hslot
  · exact absurd hg (ha a hmem)

/-- Without a credential in the slot, none can be had from it. -/
theorem Reaches.false (h : m.Reaches c)
    (ha : ∀ a ∈ m.authorizations, a.generation ≠ m.generation) (hs : m.slot.credential? = none) :
    False := by
  cases hs.symm.trans (h.slot ha)

/-- What could come into use after the end of a refresh could do so before, unless it is what the
refresh commits to. -/
theorem RefreshEnd.reaches (h : m.Coherent) {r : Refresh} (hr : r ∈ m.refreshes) {reply : Reply}
    {now : Instant} (he : RefreshEnd m r (.ofRefresh m.config r.credential now reply) now m' out)
    (hc : m'.Reaches c) :
    m.Reaches c ∧ m.settles? (.reply r.number reply now) = none ∨
      m.settles? (.reply r.number reply now) = some (.committed c) := by
  rw [h.numbers.settles?_refresh hr]
  cases he with
  | broken hu hf => exact .inl ⟨hc, by simp [hu, Ruling.settlesRefresh?]⟩
  | late hu hw =>
    have hg : r.generation ≠ m.generation := by
      rw [Ne, ← h.awaits_iff_generation hr, hw]
      exact Bool.false_ne_true
    exact .inl ⟨hc, if_neg hg⟩
  | granted hu hw =>
    have hg := generation_eq_of_awaits hw
    cases hc.slot (h.ne_of_refresh hr hg).2
    exact .inr (by rw [if_pos hg, hu]; rfl)
  | refused hu hw =>
    have hg := generation_eq_of_awaits hw
    exact (hc.false (h.ne_of_refresh hr hg).2 rfl).elim

/-- What could come into use after the end of an exchange could do so before, unless it is what the
exchange commits to. -/
theorem ExchangeEnd.reaches (h : m.Coherent) {a : Authorization} (ha : a ∈ m.authorizations)
    {reply : Reply} {now : Instant}
    (he : ExchangeEnd m a (.ofExchange m.config now reply) now m' out) (hc : m'.Reaches c) :
    m.Reaches c ∧ m.settles? (.reply a.number reply now) = none ∨
      m.settles? (.reply a.number reply now) = some (.committed c) := by
  have hslot : m'.slot.credential? = some c ∨ m.Reaches c := by
    rcases hc with hslot | ⟨b, hb, hg, hsaved⟩
    · exact .inl hslot
    · cases he <;> exact .inr (.inr ⟨b, (List.mem_filter.mp hb).1, hg, hsaved⟩)
  rw [h.numbers.settles?_exchange ha]
  cases he with
  | broken hu => exact .inl ⟨hslot.elim .inl id, by simp [hu, Ruling.settlesExchange?]⟩
  | grantedLate hu hg => exact .inl ⟨hslot.elim .inl id, if_neg (Ne.symm hg)⟩
  | granted hu hg =>
    cases hc.slot (h.ne_of_authorization ha hg.symm).2
    exact .inr (by rw [if_pos hg.symm, hu]; rfl)
  | refusedLate hu hg => exact .inl ⟨hslot.elim .inl id, by simp [hu, Ruling.settlesExchange?]⟩
  | refused hu hg hs =>
    refine .inl ⟨?_, by simp [hu, Ruling.settlesExchange?]⟩
    rcases hslot with hslot | hsaved
    · exact .inr ⟨a, ha, hg.symm, by simpa using hslot⟩
    · exact hsaved

/-- **What could come into use after a step could do so before and nothing is settled, or it is what
the step commits to.** -/
theorem Move.reaches (h : m.Coherent) (hm : Move m e m' out)
    (hroom : m'.generation ≠ m.generation → m.generation.toNat + 1 < UInt64.size)
    (hc : m'.Reaches c) :
    m.Reaches c ∧ m.settles? e = none ∨ m.settles? e = some (.committed c) := by
  cases hm with
  | answered hd => exact .inl ⟨hc, rfl⟩
  | joined hd hf => exact .inl ⟨hc, rfl⟩
  | stuck hd hf => exact .inl ⟨hc, rfl⟩
  | started hd hf hs =>
    have hslot := hc.slot (h.ne_succ (hroom (succ_ne _))).2
    refine .inl ⟨.inl ?_, rfl⟩
    rcases hs with hs | hs <;> simpa [hs, Slot.credential?] using hslot
  | began =>
    refine .inl ⟨?_, rfl⟩
    rcases hc with hslot | ⟨a, ha, hg, hsaved⟩
    · cases hslot
    · rcases List.mem_append.mp ha with ha | ha
      · exact absurd hg ((h.ne_succ (hroom (succ_ne _))).2 a ha)
      · rw [List.mem_singleton.mp ha] at hsaved
        exact .inl hsaved
  | forgotten => exact (hc.false (h.ne_succ (hroom (succ_ne _))).2 rfl).elim
  | left =>
    refine .inl ⟨?_, rfl⟩
    rcases hc with hslot | ⟨a, ha, hg, hsaved⟩
    · exact .inl hslot
    · exact .inr ⟨a, (List.mem_filter.mp ha).1, hg, hsaved⟩
  | overwritten => exact .inl ⟨hc, rfl⟩
  | unasked hr ha => exact .inl ⟨hc, settles?_unasked hr ha _ _⟩
  | refreshEnds hr he => exact he.reaches h hr hc
  | exchangeEnds hr ha he => exact he.reaches h ha hc

/-- What could come into use is in force. -/
def Fresh (m : Manager) (held : Option Credential) : Prop :=
  ∀ c, m.Reaches c → held = some c

variable {held : Option Credential}

/-- The credential in the slot is in force. -/
theorem Fresh.slot (hf : m.Fresh held) (c : Credential) (hs : m.slot.credential? = some c) :
    held = some c :=
  hf c (.inl hs)

/-- **A step brings nothing into use that is not in force.** -/
theorem Fresh.move (hf : m.Fresh held) (h : m.Coherent) (hm : Move m e m' out)
    (hroom : m'.generation ≠ m.generation → m.generation.toNat + 1 < UInt64.size) :
    m'.Fresh ((m.settles? e).elim held Settlement.credential?) := by
  intro c hc
  rcases hm.reaches h hroom hc with ⟨hc, hnone⟩ | hcommitted
  · rw [hnone]
    exact hf c hc
  · rw [hcommitted]
    rfl

/-- A run brings nothing into use that is not in force. -/
theorem Fresh.after (hf : m.Fresh held) (h : m.Coherent) {es : List Event}
    (hroom : m.generation.toNat + m.bumps es < UInt64.size) :
    (m.after es).Fresh ((m.latest? es).elim held Settlement.credential?) := by
  induction es generalizing m held with
  | nil => exact hf
  | cons e es ih =>
    have hnext := hf.move h (step_move m e) (room_step hroom).1
    have hrest := ih hnext (h.step hroom) (room_step hroom).2
    rw [after_cons, latest?]
    cases hs : (m.step e).1.latest? es with
    | none => simpa [hs] using hrest
    | some s => simpa [hs] using hrest

/-- **In every run, what could come into use is in force.** -/
theorem Made.fresh (h : m.Made) {es : List Event} (hroom : m.bumps es < UInt64.size) :
    (m.after es).Fresh (m.inForce es) := by
  apply Fresh.after
  case hf =>
    intro c hc
    exact hc.slot (by simp [h.atRest.authorizations])
  case h => exact h.atRest.coherent
  case hroom => simpa [h.atRest.generation] using hroom

/-! ## What is used -/

/-- Those who wait for a refresh get nothing but its answer. -/
theorem eq_of_mem_tellWaiters {r : Refresh} {caller : Caller}
    {answer₁ answer₂ : Except Failure Bearer}
    (h : .bearer caller answer₁ ∈ m.tellWaiters r answer₂) : answer₁ = answer₂ := by
  obtain ⟨w, -, hw⟩ := List.mem_map.mp h
  cases hw
  rfl

/-- A bearer that comes of a refresh is that of the credential in force. -/
theorem RefreshEnd.bearer_eq {r : Refresh} {u : Ruling} {now : Instant}
    (he : RefreshEnd m r u now m' out) (hf : m'.Fresh held) {caller : Caller} {b : Bearer}
    (hb : .bearer caller (.ok b) ∈ out) : ∃ c, held = some c ∧ b = c.bearer := by
  cases he with
  | @granted c hu hw => exact ⟨c, hf.slot c rfl, Except.ok.inj (eq_of_mem_tellWaiters hb)⟩
  | _ => cases eq_of_mem_tellWaiters hb

/-- Whoever gets a bearer gets that of an API key or of the credential in force. -/
theorem Move.bearer_eq (hm : Move m e m' out) (hf : m'.Fresh held) {caller : Caller} {b : Bearer}
    (hb : .bearer caller (.ok b) ∈ out) :
    (∃ key, m.slot = .apiKey key ∧ b = .ofApiKey key) ∨ ∃ c, held = some c ∧ b = c.bearer := by
  cases hm with
  | @answered _ d r hd =>
    obtain ⟨-, rfl⟩ : caller = _ ∧ .ok b = r := by simpa using hb
    cases hs : m.slot with
    | apiKey key =>
      refine .inl ⟨key, rfl, ?_⟩
      rw [hs] at hd
      cases d <;> simpa [Demand.answer?, Demand.fromApiKey] using hd.symm
    | authenticated c =>
      refine .inr ⟨c, hf.slot c (by rw [hs]; rfl), ?_⟩
      rw [hs, Demand.answer?] at hd
      split at hd <;> simpa using hd.symm
    | _ => simp [hs, Demand.answer?] at hd
  | refreshEnds hr he => exact .inr (he.bearer_eq hf hb)
  | exchangeEnds hr ha he => cases he <;> simp at hb
  | _ => simp at hb

/-- Whoever gets a credential gets the one in force. -/
theorem Move.credential_eq (hm : Move m e m' out) (hf : m'.Fresh held) {caller : Caller}
    {c : Credential} (hc : .credential caller (.ok c) ∈ out) : held = some c := by
  cases hm with
  | refreshEnds hr he =>
    rw [he.told] at hc
    obtain ⟨w, -, hw⟩ := List.mem_map.mp hc
    cases hw
  | exchangeEnds hr ha he =>
    cases he with
    | granted hu hg =>
      obtain ⟨-, rfl⟩ : caller = _ ∧ c = _ := by simpa using hc
      exact hf.slot c rfl
    | _ => simp at hc
  | _ => simp at hc

/-- A refresh is asked for the credential in force. -/
theorem Move.refreshDraft_eq (hm : Move m e m' out) (hf : m'.Fresh held) {number : Nat}
    {draft : Draft} (hsent : .request number draft ∈ out)
    (hasks : (Output.request number draft).asksToRefresh = true) :
    ∃ c, held = some c ∧ draft = m.config.refreshDraft c := by
  cases hm with
  | @started _ _ c hd hflight hs =>
    obtain ⟨-, rfl⟩ : number = _ ∧ draft = _ := by simpa using hsent
    exact ⟨c, hf.slot c rfl, rfl⟩
  | began =>
    obtain ⟨-, rfl⟩ : number = _ ∧ draft = _ := by simpa using hsent
    simp at hasks
  | refreshEnds hr he =>
    rw [he.told] at hsent
    obtain ⟨w, -, hw⟩ := List.mem_map.mp hsent
    cases hw
  | exchangeEnds hr ha he => cases he <;> simp at hsent
  | _ => simp at hsent

/-- The file is removed, written to from outside, or keeps the credential in force from now on. -/
theorem Move.file_eq (hm : Move m e m' out) (hf : m'.Fresh held) :
    m'.file = m.file ∨ (∃ n, e = .overwrite n) ∨ (e = .logout ∧ m'.file = m.file.map clearFile) ∨
      ∃ c now, held = some c ∧ m'.file = m.file.map (keepCredential c now) := by
  cases hm with
  | overwritten => exact .inr (.inl ⟨_, rfl⟩)
  | forgotten => exact .inr (.inr (.inl ⟨rfl, rfl⟩))
  | refreshEnds hr he =>
    cases he with
    | @granted c hu hw => exact .inr (.inr (.inr ⟨c, _, hf.slot c rfl, rfl⟩))
    | _ => exact .inl rfl
  | exchangeEnds hr ha he =>
    cases he with
    | @granted c hu hg => exact .inr (.inr (.inr ⟨c, _, hf.slot c rfl, rfl⟩))
    | _ => exact .inl rfl
  | _ => exact .inl rfl

/-! ## When nothing is left -/

/-- There is no credential, and no request that could bring one. -/
structure Idle (m : Manager) (s : Slot) : Prop where
  slot : m.slot = s
  final : s = .unauthenticated ∨ s = .expired
  refreshes : ∀ r ∈ m.refreshes, r.generation ≠ m.generation
  authorizations : ∀ a ∈ m.authorizations, a.generation ≠ m.generation

variable {s : Slot}

/-- The end of a refresh brings nothing back. -/
theorem Idle.refreshEnd (h : m.Idle s) {r : Refresh} (hr : r ∈ m.refreshes) {u : Ruling}
    {now : Instant} (he : RefreshEnd m r u now m' out) : m'.Idle s := by
  have hlate : m.awaits r ≠ true := by
    intro hw
    exact h.refreshes r hr (generation_eq_of_awaits hw)
  have hrefreshes : ∀ t ∈ m.refreshes.filter (·.number != r.number),
      t.generation ≠ m.generation := by
    intro t ht
    exact h.refreshes t (List.mem_filter.mp ht).1
  cases he with
  | granted hu hw => exact absurd hw hlate
  | refused hu hw => exact absurd hw hlate
  | _ => exact ⟨h.slot, h.final, hrefreshes, h.authorizations⟩

/-- The end of an exchange brings nothing back. -/
theorem Idle.exchangeEnd (h : m.Idle s) {a : Authorization} (ha : a ∈ m.authorizations)
    {u : Ruling} {now : Instant} (he : ExchangeEnd m a u now m' out) : m'.Idle s := by
  have hauthorizations : ∀ b ∈ m.authorizations.filter (·.number != a.number),
      b.generation ≠ m.generation := by
    intro b hb
    exact h.authorizations b (List.mem_filter.mp hb).1
  cases he with
  | granted hu hg => exact absurd hg.symm (h.authorizations a ha)
  | refused hu hg hs => exact absurd hg.symm (h.authorizations a ha)
  | _ => exact ⟨h.slot, h.final, h.refreshes, hauthorizations⟩

/-- Without a credential every demand is refused at once. -/
theorem Idle.answer?_ne_none (h : m.Idle s) (d : Demand) : d.answer? m.config m.slot ≠ none := by
  rw [h.slot]
  rcases h.final with rfl | rfl <;> simp [Demand.answer?]

/-- **Once nothing is left, that is how it stays** at every step but one that supersedes what is
under way. -/
theorem Idle.move (h : m.Idle s) (hm : Move m e m' out) (hsup : e.supersedes = false) :
    m'.Idle s := by
  cases hm with
  | joined hd hflight => exact absurd hd (h.answer?_ne_none _)
  | started hd hflight hs => exact absurd hd (h.answer?_ne_none _)
  | began => cases hsup
  | forgotten => cases hsup
  | left =>
    refine ⟨h.slot, h.final, h.refreshes, ?_⟩
    intro a ha
    exact h.authorizations a (List.mem_filter.mp ha).1
  | overwritten => exact ⟨h.slot, h.final, h.refreshes, h.authorizations⟩
  | refreshEnds hr he => exact h.refreshEnd hr he
  | exchangeEnds hr ha he => exact h.exchangeEnd ha he
  | answered hd => exact h
  | stuck hd hflight => exact h
  | unasked hr ha => exact h

/-- Once nothing is left, nothing is asked for. -/
theorem Idle.silent (h : m.Idle s) (hm : Move m e m' out) (hsup : e.supersedes = false)
    (number : Nat) (draft : Draft) : .request number draft ∉ out := by
  intro hsent
  cases hm with
  | started hd hflight hs => exact absurd hd (h.answer?_ne_none _)
  | began => cases hsup
  | refreshEnds hr he =>
    rw [he.told] at hsent
    obtain ⟨w, -, hw⟩ := List.mem_map.mp hsent
    cases hw
  | exchangeEnds hr ha he => cases he <;> simp at hsent
  | _ => simp at hsent

/-- In all of a run in which nobody logs out or brings back a code, the slot is `s` and the issuer
is asked for nothing. -/
def RestsIn (m : Manager) (s : Slot) : Prop :=
  ∀ es, (∀ e ∈ es, e.supersedes = false) →
    (m.after es).slot = s ∧ ∀ number draft, .request number draft ∉ m.outputs es

/-- **Once nothing is left, that is how it stays**, until somebody logs out or brings back a
code. -/
theorem Idle.restsIn (h : m.Idle s) : m.RestsIn s := by
  intro es hes
  induction es generalizing m with
  | nil => exact ⟨h.slot, by simp⟩
  | cons e es ih =>
    obtain ⟨he, hes⟩ := List.forall_mem_cons.mp hes
    have hmove := step_move m e
    obtain ⟨hslot, hsilent⟩ := ih (h.move hmove he) hes
    refine ⟨hslot, ?_⟩
    intro number draft hsent
    rw [outputs_cons] at hsent
    rcases List.mem_append.mp hsent with hsent | hsent
    · exact h.silent hmove he number draft hsent
    · exact hsilent number draft hsent

/-- Once everything is forgotten, nothing is left. -/
theorem Coherent.idle_of_logout (h : m.Coherent) (hm : Move m .logout m' out)
    (hroom : m'.generation ≠ m.generation → m.generation.toNat + 1 < UInt64.size) :
    m'.Idle .unauthenticated := by
  cases hm with
  | forgotten =>
    obtain ⟨hr, ha⟩ := h.ne_succ (hroom (succ_ne _))
    exact ⟨rfl, .inl rfl, hr, ha⟩

/-- Once a refresh that counts has failed, nothing is left. -/
theorem Coherent.idle_of_failure (h : m.Coherent) {number : Nat} {reply : Reply} {now : Instant}
    (hm : Move m (.reply number reply now) m' out)
    (hsettles : m.settles? (.reply number reply now) = some .givenUp) : m'.Idle .expired := by
  cases hm with
  | unasked hr ha => simp [settles?_unasked hr ha] at hsettles
  | refreshEnds hr he =>
    rw [h.numbers.settles?_refresh hr, Option.ite_none_right_eq_some,
      Ruling.settlesRefresh?_eq_givenUp_iff] at hsettles
    obtain ⟨hg, f, hf⟩ := hsettles
    rw [hf] at he
    cases he with
    | broken hu hflight => cases hu
    | late hu hlate => simp [(h.awaits_iff_generation hr).mpr hg] at hlate
    | granted hu hw => cases hu
    | refused hu hw =>
      obtain ⟨hrefreshes, hauthorizations⟩ := h.ne_of_refresh hr hg
      exact ⟨rfl, .inr rfl, hrefreshes, hauthorizations⟩
  | exchangeEnds hr ha he =>
    rw [h.numbers.settles?_exchange ha, Option.ite_none_right_eq_some] at hsettles
    exact absurd hsettles.2 (Ruling.settlesExchange?_ne_givenUp _)

/-! ## Nothing but what is in force -/

/-- After the events `es`, no credential but the one in force is held for use, and none is used when
the event `e` happens. -/
structure OnlyInForce (m : Manager) (es : List Event) (e : Event) : Prop where
  /-- A credential in the slot is the one in force. -/
  slot : ∀ c, (m.after es).slot.credential? = some c → m.inForce es = some c
  /-- A bearer that is handed out is that of the credential in force, or of an API key. -/
  bearer : ∀ caller b, .bearer caller (.ok b) ∈ ((m.after es).step e).2 →
    (∃ key, (m.after es).slot = .apiKey key ∧ b = .ofApiKey key) ∨
      ∃ c, m.inForce (es ++ [e]) = some c ∧ b = c.bearer
  /-- A credential that is handed out is the one in force. -/
  credential : ∀ caller c, .credential caller (.ok c) ∈ ((m.after es).step e).2 →
    m.inForce (es ++ [e]) = some c
  /-- A refresh is asked for the credential in force. -/
  refresh : ∀ number draft, .request number draft ∈ ((m.after es).step e).2 →
    (Output.request number draft).asksToRefresh = true →
      ∃ c, m.inForce (es ++ [e]) = some c ∧ draft = m.config.refreshDraft c
  /-- Unless somebody else writes to it, the file is left alone, or removed when everything is
  forgotten, or keeps the credential in force from now on. -/
  file : (m.after (es ++ [e])).file = (m.after es).file ∨ (∃ n, e = .overwrite n) ∨
    (e = .logout ∧ (m.after (es ++ [e])).file = (m.after es).file.map clearFile) ∨
    ∃ c now, m.inForce (es ++ [e]) = some c ∧
      (m.after (es ++ [e])).file = (m.after es).file.map (keepCredential c now)
  /-- Once everything is forgotten, that is how it stays. -/
  forgotten : e = .logout → (m.after (es ++ [e])).RestsIn .unauthenticated
  /-- Once a refresh that counts has failed, that is how it stays. -/
  failed : ∀ number reply now, e = .reply number reply now →
    (m.after es).settles? e = some .givenUp → (m.after (es ++ [e])).RestsIn .expired

/-- **No credential comes into use again that has been given up or replaced**, whatever the order in
which things happen. -/
theorem Made.only_in_force (h : m.Made) {es : List Event} {e : Event}
    (hroom : m.bumps (es ++ [e]) < UInt64.size) : OnlyInForce m es e := by
  have hroom' : m.bumps es < UInt64.size := by
    rw [bumps_append] at hroom
    omega
  have hcoherent := h.coherent hroom'
  have hnext := (room_step (h.room hroom)).1
  have hmove := step_move (m.after es) e
  have hfresh : ((m.after es).step e).1.Fresh (m.inForce (es ++ [e])) := by
    rw [inForce_concat]
    exact (h.fresh hroom').move hcoherent hmove hnext
  have hlast : m.after (es ++ [e]) = ((m.after es).step e).1 := by
    rw [after_append]
    rfl
  constructor
  case slot => exact (h.fresh hroom').slot
  case bearer =>
    intro caller b hb
    exact hmove.bearer_eq hfresh hb
  case credential =>
    intro caller c hc
    exact hmove.credential_eq hfresh hc
  case refresh =>
    intro number draft hsent hasks
    rw [← config_after m es]
    exact hmove.refreshDraft_eq hfresh hsent hasks
  case file =>
    rw [hlast]
    exact hmove.file_eq hfresh
  case forgotten =>
    rintro rfl
    rw [hlast]
    exact (hcoherent.idle_of_logout hmove hnext).restsIn
  case failed =>
    rintro number reply now rfl hsettles
    rw [hlast]
    exact (hcoherent.idle_of_failure hmove hsettles).restsIn

/-- While a credential is refreshed, somebody brings back a code and gets another one. -/
def overtaken : List Event :=
  [.demand 0 (.valid .epoch), .authorize 1 "v" "c",
    .reply 1 (successWith
      "\x7b\"access_token\":\"b\",\"refresh_token\":\"s\",\"expires_in\":60\x7d") .epoch]

/-- What the refresh comes to in the end. -/
def overtakenReply : Event :=
  .reply 0 (successWith "\x7b\"access_token\":\"d\",\"expires_in\":60\x7d") .epoch

/-- The credential from the code stays in force when the refresh ends. -/
theorem overtaken_only_in_force :
    (ofCredential {} .spent).bumps (overtaken ++ [overtakenReply]) < UInt64.size ∧
      OnlyInForce (ofCredential {} .spent) overtaken overtakenReply ∧
      (((ofCredential {} .spent).inForce (overtaken ++ [overtakenReply])).map (·.accessToken)) =
        some "b" := by
  have hroom : (ofCredential {} .spent).bumps (overtaken ++ [overtakenReply]) < UInt64.size := by
    decide +kernel
  refine ⟨hroom, (Made.ofCredential {} .spent).only_in_force hroom, ?_⟩
  decide +kernel

end Manager

end Courier.Auth
