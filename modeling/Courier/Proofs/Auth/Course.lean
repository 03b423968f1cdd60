import Courier.Proofs.Auth.Coherence

/-!
# From a request to its reply

A `Course` is a stretch of a run: an event makes a manager send a request, other events follow, and
then the issuer replies. What the reply does hangs on whether the request is still of the current
generation by then, and that is decided by the events in between:

* If one of them supersedes what is under way, the generation has moved on (`generation_lt_after`).
* If none does, it has not: a new generation would otherwise begin only with a refresh, and none
  begins while there is one to join (`refresh_stays`) or a code is exchanged
  (`authorization_stays`).

`Course.exists_refresh` and `Course.exists_authorization` put this together.
-/

namespace Courier.Auth

open Courier.Http Courier.Store Courier.Time

namespace Manager

variable {m m' : Manager} {e : Event} {out : List Output}

/-! ## What goes on -/

/-- What has another key than the one that is taken out stays. -/
theorem mem_filter_bne {α : Type} {key : α → Nat} {l : List α} {x : α} {n : Nat} (hx : x ∈ l)
    (hn : (n == key x) = false) : x ∈ l.filter (key · != n) :=
  List.mem_filter.mpr ⟨hx, bne_iff_ne.mpr (Ne.symm (beq_eq_false_iff_ne.mp hn))⟩

/-- A manager asks the same issuer for ever. -/
theorem Move.config_eq (hm : Move m e m' out) : m'.config = m.config := by
  cases hm with
  | refreshEnds hr he => cases he <;> rfl
  | exchangeEnds hr ha he => cases he <;> rfl
  | _ => rfl

/-- A manager asks the same issuer in all of a run. -/
theorem config_after (m : Manager) (es : List Event) : (m.after es).config = m.config := by
  apply after_induction (P := fun m' => m'.config = m.config)
  · intro m' e h
    rw [(step_move m' e).config_eq, h]
  · rfl

/-- A refresh is open until there is a reply to it. -/
theorem Move.mem_refreshes (hm : Move m e m' out) {r : Refresh} (hr : r ∈ m.refreshes)
    (hopen : e.repliesTo r.number = false) : r ∈ m'.refreshes := by
  cases hm with
  | started hd hf hs => exact List.mem_append_left _ hr
  | refreshEnds hs he => cases he <;> exact mem_filter_bne hr hopen
  | exchangeEnds hs ha he => cases he <;> exact hr
  | _ => exact hr

/-- An exchange is open until there is a reply to it or its caller goes away. -/
theorem Move.mem_authorizations (hm : Move m e m' out) {a : Authorization}
    (ha : a ∈ m.authorizations) (hopen : e.repliesTo a.number = false)
    (hstays : e.takesAway a.caller = false) : a ∈ m'.authorizations := by
  cases hm with
  | began => exact List.mem_append_left _ ha
  | left => exact mem_filter_bne ha hstays
  | refreshEnds hs he => cases he <;> exact ha
  | exchangeEnds hr hb he => cases he <;> exact mem_filter_bne ha hopen
  | _ => exact ha

/-- An exchange that a step leaves open was open, or its caller has just brought back the code. -/
theorem Move.mem_authorizations_began (hm : Move m e m' out) {a : Authorization}
    (ha : a ∈ m'.authorizations) :
    a ∈ m.authorizations ∨ ∃ verifier code, e = .authorize a.caller verifier code := by
  cases hm with
  | began =>
    rcases List.mem_append.mp ha with ha | ha
    · exact .inl ha
    · rw [List.mem_singleton.mp ha]
      exact .inr ⟨_, _, rfl⟩
  | left => exact .inl (List.mem_filter.mp ha).1
  | refreshEnds hr he => cases he <;> exact .inl ha
  | exchangeEnds hr hb he => cases he <;> exact .inl (List.mem_filter.mp ha).1
  | _ => exact .inl ha

/-- A caller waits until there is a reply or the caller goes away. -/
theorem Move.mem_waiters (hm : Move m e m' out) {w : Waiter} (hw : w ∈ m.waiters)
    (hopen : e.repliesTo w.number = false) (hstays : e.takesAway w.caller = false) :
    w ∈ m'.waiters := by
  cases hm with
  | joined hd hf => exact List.mem_append_left _ hw
  | started hd hf hs => exact List.mem_append_left _ hw
  | left => exact mem_filter_bne hw hstays
  | refreshEnds hs he => cases he <;> exact mem_filter_bne hw hopen
  | exchangeEnds hr ha he => cases he <;> exact hw
  | _ => exact hw

/-- An open refresh is open in all of a run without a reply to it. -/
theorem mem_refreshes_after {r : Refresh} (hr : r ∈ m.refreshes) {es : List Event}
    (hopen : ∀ e ∈ es, e.repliesTo r.number = false) : r ∈ (m.after es).refreshes := by
  apply after_induction_of (P := fun m => r ∈ m.refreshes)
  · intro m e he hr
    exact (step_move m e).mem_refreshes hr he
  · exact hr
  · exact hopen

/-- An open exchange is open in all of a run in which there is no reply to it and its caller
stays. -/
theorem mem_authorizations_after {a : Authorization} (ha : a ∈ m.authorizations) {es : List Event}
    (hopen : ∀ e ∈ es, e.repliesTo a.number = false)
    (hstays : ∀ e ∈ es, e.takesAway a.caller = false) : a ∈ (m.after es).authorizations := by
  apply after_induction_of (P := fun m => a ∈ m.authorizations)
    (Q := fun e => e.repliesTo a.number = false ∧ e.takesAway a.caller = false)
  · intro m e he ha
    exact (step_move m e).mem_authorizations ha he.1 he.2
  · exact ha
  · intro e he
    exact ⟨hopen e he, hstays e he⟩

/-- A caller waits in all of a run in which there is no reply and the caller stays. -/
theorem mem_waiters_after {w : Waiter} (hw : w ∈ m.waiters) {es : List Event}
    (hopen : ∀ e ∈ es, e.repliesTo w.number = false)
    (hstays : ∀ e ∈ es, e.takesAway w.caller = false) : w ∈ (m.after es).waiters := by
  apply after_induction_of (P := fun m => w ∈ m.waiters)
    (Q := fun e => e.repliesTo w.number = false ∧ e.takesAway w.caller = false)
  · intro m e he hw
    exact (step_move m e).mem_waiters hw he.1 he.2
  · exact hw
  · intro e he
    exact ⟨hopen e he, hstays e he⟩

/-! ## Generations in between -/

/-- Without an event that supersedes, a generation begins only where there is no refresh to join and
a credential to refresh. -/
theorem Move.generation_eq_or (hm : Move m e m' out) (hsup : e.supersedes = false) :
    m'.generation = m.generation ∨ m.flight = none ∧ m.slot ≠ .authorizing := by
  cases hm with
  | started hd hf hs =>
    refine .inr ⟨hf, ?_⟩
    intro hauth
    rcases hs with hs | hs <;> cases hauth.symm.trans hs
  | began => cases hsup
  | forgotten => cases hsup
  | refreshEnds hr he => cases he <;> exact .inl rfl
  | exchangeEnds hr ha he => cases he <;> exact .inl rfl
  | _ => exact .inl rfl

/-- An event that supersedes begins a generation. -/
theorem Move.generation_eq_succ (hm : Move m e m' out) (hsup : e.supersedes = true) :
    m'.generation = m.generation + 1 := by
  cases hm with
  | began => rfl
  | forgotten => rfl
  | _ => cases hsup

/-- Generations are counted by how often one begins. -/
theorem toNat_generation_after {es : List Event}
    (hroom : m.generation.toNat + m.bumps es < UInt64.size) :
    (m.after es).generation.toNat = m.generation.toNat + m.bumps es := by
  induction es generalizing m with
  | nil => rfl
  | cons e es ih =>
    simp only [bumps] at hroom ⊢
    rcases (step_move m e).generation_eq with hg | hg
    · rw [if_pos hg] at hroom ⊢
      rw [after_cons, ih (by rw [hg]; omega), hg]
      omega
    · have hne : (m.step e).1.generation ≠ m.generation := hg ▸ succ_ne _
      rw [if_neg hne] at hroom ⊢
      have hsucc := toNat_succ (g := m.generation) (by omega)
      rw [after_cons, ih (by rw [hg, hsucc]; omega), hg, hsucc]
      omega

/-- Where an event supersedes, a generation begins. -/
theorem bumps_pos {es : List Event} (hsup : ∃ e ∈ es, e.supersedes = true) : 0 < m.bumps es := by
  obtain ⟨e, he, hsup⟩ := hsup
  induction es generalizing m with
  | nil => cases he
  | cons f es ih =>
    simp only [bumps]
    rcases List.mem_cons.mp he with rfl | he
    · rw [if_neg]
      · omega
      · rw [(step_move m e).generation_eq_succ hsup]
        exact succ_ne _
    · exact Nat.lt_of_lt_of_le (ih he) (Nat.le_add_left _ _)

/-- **Once an event has superseded what was under way, the generation has moved on.** -/
theorem generation_lt_after {es : List Event}
    (hroom : m.generation.toNat + m.bumps es < UInt64.size)
    (hsup : ∃ e ∈ es, e.supersedes = true) :
    m.generation.toNat < (m.after es).generation.toNat := by
  have := bumps_pos (m := m) hsup
  rw [toNat_generation_after hroom]
  omega

/-- **Unless something supersedes it, an open refresh stays the one of the current generation.** -/
theorem Coherent.refresh_stays (h : m.Coherent) {r : Refresh} (hr : r ∈ m.refreshes)
    (hg : r.generation = m.generation) {es : List Event}
    (hopen : ∀ e ∈ es, e.repliesTo r.number = false) (hsup : ∀ e ∈ es, e.supersedes = false) :
    r.generation = (m.after es).generation := by
  suffices hstays : (m.after es).Coherent ∧ r ∈ (m.after es).refreshes ∧
      r.generation = (m.after es).generation from hstays.2.2
  apply after_induction_of
    (P := fun m => m.Coherent ∧ r ∈ m.refreshes ∧ r.generation = m.generation)
    (Q := fun e => e.repliesTo r.number = false ∧ e.supersedes = false)
  · rintro m e ⟨hopen, hsup⟩ ⟨h, hr, hg⟩
    have hmove := step_move m e
    -- There is a refresh to join, so none begins.
    have hgen : (m.step e).1.generation = m.generation := by
      rcases hmove.generation_eq_or hsup with hgen | ⟨hf, -⟩
      · exact hgen
      · rw [h.current r hr hg] at hf
        cases hf
    refine ⟨?_, hmove.mem_refreshes hr hopen, hg.trans hgen.symm⟩
    apply h.move hmove
    intro hne
    exact absurd hgen hne
  · exact ⟨h, hr, hg⟩
  · intro e he
    exact ⟨hopen e he, hsup e he⟩

/-- **Unless something supersedes it, an open exchange stays the one of the current generation.** -/
theorem Coherent.authorization_stays (h : m.Coherent) {a : Authorization}
    (ha : a ∈ m.authorizations) (hg : a.generation = m.generation) {es : List Event}
    (hopen : ∀ e ∈ es, e.repliesTo a.number = false)
    (hstays : ∀ e ∈ es, e.takesAway a.caller = false) (hsup : ∀ e ∈ es, e.supersedes = false) :
    a.generation = (m.after es).generation := by
  suffices hstays : (m.after es).Coherent ∧ a ∈ (m.after es).authorizations ∧
      a.generation = (m.after es).generation from hstays.2.2
  apply after_induction_of
    (P := fun m => m.Coherent ∧ a ∈ m.authorizations ∧ a.generation = m.generation)
    (Q := fun e =>
      e.repliesTo a.number = false ∧ e.takesAway a.caller = false ∧ e.supersedes = false)
  · rintro m e ⟨hopen, hstays, hsup⟩ ⟨h, ha, hg⟩
    have hmove := step_move m e
    -- The slot is one of an exchange, so no refresh begins.
    have hgen : (m.step e).1.generation = m.generation := by
      rcases hmove.generation_eq_or hsup with hgen | ⟨-, hs⟩
      · exact hgen
      · exact absurd (h.exchanging a ha hg) hs
    refine ⟨?_, hmove.mem_authorizations ha hopen hstays, hg.trans hgen.symm⟩
    apply h.move hmove
    intro hne
    exact absurd hgen hne
  · exact ⟨h, ha, hg⟩
  · intro e he
    exact ⟨hopen e he, hstays e he, hsup e he⟩

/-! ## Requests -/

/-- A request made to meet a demand refreshes the credential in the slot, and whoever made the
demand waits for the reply. -/
theorem Move.sends_refresh {caller : Caller} {d : Demand} (hm : Move m (.demand caller d) m' out)
    (h : m.Coherent) {number : Nat} {draft : Draft} (hsent : .request number draft ∈ out) :
    ∃ c, m.slot = .authenticated c ∧ draft = m.config.refreshDraft c ∧
      ⟨number, m'.generation, c⟩ ∈ m'.refreshes ∧ ⟨caller, number⟩ ∈ m'.waiters := by
  cases hm with
  | answered hd => simp at hsent
  | joined hd hf => simp at hsent
  | stuck hd hf => simp at hsent
  | @started _ _ c hd hf hs =>
    obtain ⟨rfl, rfl⟩ : number = m.requests ∧ draft = m.config.refreshDraft c := by
      simpa using hsent
    refine ⟨c, ?_, rfl, by simp, by simp⟩
    rcases hs with hs | hs
    · exact hs
    · have := h.idle hf
      simp [hs, Slot.isRefreshing] at this

/-- A request made for a code exchanges it. -/
theorem Move.sends_exchange {caller : Caller} {verifier code : String}
    (hm : Move m (.authorize caller verifier code) m' out) {number : Nat} {draft : Draft}
    (hsent : .request number draft ∈ out) :
    draft = m.config.exchangeDraft verifier code ∧
      ⟨number, caller, m'.generation, m.slot⟩ ∈ m'.authorizations := by
  cases hm with
  | began =>
    obtain ⟨rfl, rfl⟩ : number = m.requests ∧ draft = m.config.exchangeDraft verifier code := by
      simpa using hsent
    exact ⟨rfl, by simp⟩

/-! ## Replies -/

/-- A reply to an open refresh ends it. -/
theorem Move.refreshEnd {number : Nat} {reply : Reply} {now : Instant}
    (hm : Move m (.reply number reply now) m' out) (hnumbers : m.Numbered) {r : Refresh}
    (hr : r ∈ m.refreshes) (hn : r.number = number) :
    RefreshEnd m r (.ofRefresh m.config r.credential now reply) now m' out := by
  cases hm with
  | unasked hr' ha => exact absurd hn (hr' r hr)
  | refreshEnds hs he =>
    obtain rfl := Stamped.refresh_inj hnumbers hr hs hn
    exact he
  | exchangeEnds hr' ha he => exact absurd hn (hr' r hr)

/-- A reply to an open exchange ends it. -/
theorem Move.exchangeEnd {number : Nat} {reply : Reply} {now : Instant}
    (hm : Move m (.reply number reply now) m' out) (hnumbers : m.Numbered) {a : Authorization}
    (ha : a ∈ m.authorizations) (hn : a.number = number) :
    ExchangeEnd m a (.ofExchange m.config now reply) now m' out := by
  cases hm with
  | unasked hr ha' => exact absurd hn (ha' a ha)
  | refreshEnds hs he => exact absurd hn.symm (Stamped.apart hnumbers _ hs a ha)
  | exchangeEnds hr hb he =>
    obtain rfl := Stamped.authorization_inj hnumbers ha hb hn
    exact he

/-- The end of a refresh that does not count and that nobody can join touches nothing but the
lists. -/
theorem RefreshEnd.eq_of_late {r : Refresh} {u : Ruling} {now : Instant}
    (he : RefreshEnd m r u now m' out) (hw : m.awaits r = false)
    (hf : m.flight ≠ some (.running r.number)) :
    m' = { m with
        refreshes := m.refreshes.filter (·.number != r.number)
        waiters := m.waiters.filter (·.number != r.number) } ∧
      ∃ answer, out = m.tellWaiters r answer := by
  cases he with
  | broken hu hf' =>
    obtain ⟨hf', -⟩ | ⟨-, rfl⟩ := hf'
    · exact absurd hf' hf
    · exact ⟨rfl, _, rfl⟩
  | late hu hw' => exact ⟨rfl, _, rfl⟩
  | granted hu hw' => cases hw.symm.trans hw'
  | refused hu hw' => cases hw.symm.trans hw'

/-- The end of an exchange that does not count touches nothing but the list. -/
theorem ExchangeEnd.eq_of_late {a : Authorization} {u : Ruling} {now : Instant}
    (he : ExchangeEnd m a u now m' out) (hg : m.generation ≠ a.generation) :
    m' = { m with authorizations := m.authorizations.filter (·.number != a.number) } ∧
      (out = [.brokenOff a.caller] ∨ ∃ r, out = [.credential a.caller r]) := by
  cases he with
  | broken hu => exact ⟨rfl, .inl rfl⟩
  | grantedLate hu hg' => exact ⟨rfl, .inr ⟨_, rfl⟩⟩
  | refusedLate hu hg' => exact ⟨rfl, .inr ⟨_, rfl⟩⟩
  | granted hu hg' => exact absurd hg' hg
  | refused hu hg' hs => exact absurd hg' hg

/-- Of a run with fewer than 2⁶⁴ generations the second part has room for its own. -/
theorem Made.room (h : m.Made) {es fs : List Event} (hroom : m.bumps (es ++ fs) < UInt64.size) :
    (m.after es).generation.toNat + (m.after es).bumps fs < UInt64.size := by
  have hzero : m.generation.toNat = 0 := by rw [h.atRest.generation]; rfl
  rw [bumps_append] at hroom
  rw [toNat_generation_after (by omega), hzero]
  omega

end Manager

/-! ## Courses -/

/-- A manager sends a request, other things happen, and then the issuer replies to it. -/
structure Course where
  /-- The manager as it was made. -/
  origin : Manager
  /-- It was made in one of the ways to make one. -/
  made : origin.Made
  /-- What happened before the request. -/
  before : List Event
  /-- What the request is made for. -/
  start : Event
  /-- The number of the request. -/
  number : Nat
  /-- The request. -/
  draft : Draft
  /-- It is sent. -/
  sent : .request number draft ∈ ((origin.after before).step start).2
  /-- What happens until there is a reply. -/
  during : List Event
  /-- There is no reply to the request yet. -/
  unanswered : ∀ e ∈ during, e.repliesTo number = false
  /-- The reply. -/
  reply : Reply
  /-- The time by then. -/
  now : Instant
  /-- There are not too many generations to tell them apart. -/
  room : origin.bumps (before ++ start :: during) < UInt64.size

namespace Course

/-- The manager before the request. -/
def opening (k : Course) : Manager :=
  k.origin.after k.before

/-- The manager before the reply. -/
def pending (k : Course) : Manager :=
  k.origin.after (k.before ++ k.start :: k.during)

/-- The manager after the reply. -/
def closing (k : Course) : Manager :=
  (k.pending.step (.reply k.number k.reply k.now)).1

/-- What comes of the reply. -/
def told (k : Course) : List Output :=
  (k.pending.step (.reply k.number k.reply k.now)).2

/-- Between the request and the reply something supersedes what is under way. -/
def Superseded (k : Course) : Prop :=
  ∃ e ∈ k.during, e.supersedes = true

/-- The manager right after the request. -/
theorem after_start (k : Course) :
    k.origin.after (k.before ++ [k.start]) = (k.opening.step k.start).1 := by
  rw [Manager.after_append]
  rfl

/-- What happens after the request leads to the manager before the reply. -/
theorem pending_eq (k : Course) : k.pending = (k.opening.step k.start).1.after k.during := by
  rw [pending, List.append_cons, Manager.after_append, after_start]

/-- After the request there is room for the generations until the reply. -/
theorem room_during (k : Course) :
    (k.opening.step k.start).1.generation.toNat + (k.opening.step k.start).1.bumps k.during <
      UInt64.size := by
  rw [← after_start]
  exact k.made.room (by rw [← List.append_cons]; exact k.room)

/-- The parts of the manager fit together before the request. -/
theorem opening_coherent (k : Course) : k.opening.Coherent := by
  have hroom := k.room
  rw [Manager.bumps_append] at hroom
  exact k.made.coherent (by omega)

/-- The parts of the manager fit together after the request. -/
theorem begun_coherent (k : Course) : (k.opening.step k.start).1.Coherent := by
  have hroom := k.room
  rw [List.append_cons, Manager.bumps_append] at hroom
  rw [← after_start]
  exact k.made.coherent (by omega)

/-- The parts of the manager fit together before the reply. -/
theorem pending_coherent (k : Course) : k.pending.Coherent :=
  k.made.coherent k.room

/-- Before the reply the issuer is the same as ever. -/
theorem pending_config (k : Course) : k.pending.config = k.origin.config :=
  Manager.config_after _ _

/-- A generation as new as the request is given up where something supersedes it. -/
theorem generation_ne (k : Course) (hsup : k.Superseded) :
    (k.opening.step k.start).1.generation ≠ k.pending.generation := by
  intro he
  have hlt := Manager.generation_lt_after k.room_during hsup
  rw [← pending_eq, ← he] at hlt
  exact Nat.lt_irrefl _ hlt

/-- What is not superseded is superseded by no event. -/
theorem supersedes_eq_false (k : Course) (hsup : ¬ k.Superseded) :
    ∀ e ∈ k.during, e.supersedes = false := by
  intro e he
  rw [Bool.eq_false_iff]
  intro htrue
  exact hsup ⟨e, he, htrue⟩

/-- **A request made to meet a demand refreshes the credential in the slot.** It is open when the
reply comes, and of the current generation exactly if nothing superseded it. Unless the caller goes
away, it waits for the reply. -/
theorem exists_refresh (k : Course) {caller : Caller} {d : Demand}
    (hstart : k.start = .demand caller d) :
    ∃ r ∈ k.pending.refreshes, r.number = k.number ∧ k.opening.slot = .authenticated r.credential ∧
      k.draft = k.origin.config.refreshDraft r.credential ∧
      (r.generation = k.pending.generation ↔ ¬ k.Superseded) ∧
      ((∀ e ∈ k.during, e.takesAway caller = false) → ⟨caller, k.number⟩ ∈ k.pending.waiters) := by
  have hmove := k.opening.step_move k.start
  rw [hstart] at hmove
  obtain ⟨c, hslot, hdraft, hr, hw⟩ := hmove.sends_refresh k.opening_coherent (hstart ▸ k.sent)
  rw [← hstart] at hr hw
  refine ⟨⟨k.number, (k.opening.step k.start).1.generation, c⟩, ?_, rfl, hslot, ?_, ⟨?_, ?_⟩, ?_⟩
  · rw [pending_eq]
    exact Manager.mem_refreshes_after hr k.unanswered
  · rw [hdraft, opening, Manager.config_after]
  · intro he hsup
    exact k.generation_ne hsup he
  · intro hsup
    rw [pending_eq]
    exact k.begun_coherent.refresh_stays hr rfl k.unanswered (k.supersedes_eq_false hsup)
  · intro hstays
    rw [pending_eq]
    exact Manager.mem_waiters_after hw k.unanswered hstays

/-- **A request made for a code exchanges it.** Unless the caller goes away it is open when the
reply comes, and of the current generation exactly if nothing superseded it. -/
theorem exists_authorization (k : Course) {caller : Caller} {verifier code : String}
    (hstart : k.start = .authorize caller verifier code)
    (hstays : ∀ e ∈ k.during, e.takesAway caller = false) :
    ∃ a ∈ k.pending.authorizations, a.number = k.number ∧ a.caller = caller ∧
      a.previous = k.opening.slot ∧ k.draft = k.origin.config.exchangeDraft verifier code ∧
      (a.generation = k.pending.generation ↔ ¬ k.Superseded) := by
  have hmove := k.opening.step_move k.start
  rw [hstart] at hmove
  obtain ⟨hdraft, ha⟩ := hmove.sends_exchange (hstart ▸ k.sent)
  rw [← hstart] at ha
  refine ⟨⟨k.number, caller, (k.opening.step k.start).1.generation, k.opening.slot⟩, ?_, rfl, rfl,
    rfl, ?_, ?_, ?_⟩
  · rw [pending_eq]
    exact Manager.mem_authorizations_after ha k.unanswered hstays
  · rw [hdraft, opening, Manager.config_after]
  · intro he hsup
    exact k.generation_ne hsup he
  · intro hsup
    rw [pending_eq]
    exact k.begun_coherent.authorization_stays ha rfl k.unanswered hstays
      (k.supersedes_eq_false hsup)

/-- The refresh of a spent credential: `during` happens until the issuer replies. -/
def ofSpent (during : List Event) (reply : Reply)
    (unanswered : ∀ e ∈ during, e.repliesTo 0 = false)
    (room : (Manager.ofCredential {} .spent).bumps (.demand 0 (.valid .epoch) :: during) <
      UInt64.size) : Course where
  origin := .ofCredential {} .spent
  made := .ofCredential _ _
  before := []
  start := .demand 0 (.valid .epoch)
  number := 0
  draft := Config.refreshDraft {} .spent
  sent := .head _
  during
  unanswered
  reply
  now := .epoch
  room

end Course

end Courier.Auth
