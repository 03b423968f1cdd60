import Courier.Proofs.Auth.Coherence

/-!
# Generations that are new

Generations start over after 2⁶⁴ of them, and a request that is still open by then is taken for one
of the generation that has come round again. `Coherent` rules that out by a bound on the generations
of a run, which also puts requests in the order of their generations. Where no order is needed less
is enough: `Manager.Renews m es` says that each generation that begins in the run is another one
than those of the requests that are open then. That is so in every run with fewer than 2⁶⁴
generations (`Made.renews`), and also in a longer one in which no request stays without an answer
for that long.

In such a run the slot tells what is under way (`Manager.Tidy`): there is a refresh to join only
while the slot is one of a refresh, and an exchange of the current generation only while it is one
of an exchange, and then there is only one.
-/

namespace Courier.Auth

open Courier.Http Courier.Store Courier.Time

namespace Manager

variable {m m' : Manager} {e : Event} {out : List Output}

/-! ## New generations -/

/-- No open request is of the generation `g`. -/
def Unclaimed (m : Manager) (g : Generation) : Prop :=
  (∀ r ∈ m.refreshes, r.generation ≠ g) ∧ ∀ a ∈ m.authorizations, a.generation ≠ g

/-- No request is open that is of a generation which begins in the course of some events. -/
def Renews : Manager → List Event → Prop
  | _, [] => True
  | m, e :: es =>
    ((m.step e).1.generation ≠ m.generation → m.Unclaimed (m.step e).1.generation) ∧
      (m.step e).1.Renews es

/-- Where there is room for the generations of a run, they are new. -/
theorem Coherent.renews (h : m.Coherent) {es : List Event}
    (hroom : m.generation.toNat + m.bumps es < UInt64.size) : m.Renews es := by
  induction es generalizing m with
  | nil => trivial
  | cons e es ih =>
    refine ⟨?_, ih (h.step hroom) (room_step hroom).2⟩
    intro hne
    have hsucc : (m.step e).1.generation = m.generation + 1 :=
      (step_move m e).generation_eq.resolve_left hne
    rw [hsucc]
    exact h.ne_succ ((room_step hroom).1 hne)

/-- **In a run with fewer than 2⁶⁴ generations each one is new.** -/
theorem Made.renews (h : m.Made) {es : List Event} (hroom : m.bumps es < UInt64.size) :
    m.Renews es := by
  apply h.atRest.coherent.renews
  rw [h.atRest.generation]
  simpa using hroom

/-! ## What the slot tells -/

/-- The slot tells what is under way. -/
structure Tidy (m : Manager) : Prop where
  /-- There is a refresh to join only while the slot is one of a refresh. -/
  flight : m.flight ≠ none → m.slot.isRefreshing = true
  /-- An exchange of the current generation is open only while the slot is one of an exchange. -/
  exchanging : ∀ a ∈ m.authorizations, a.generation = m.generation → m.slot = .authorizing
  /-- Only one exchange is of the current generation. -/
  unique : ∀ a ∈ m.authorizations, ∀ b ∈ m.authorizations, a.generation = m.generation →
    b.generation = m.generation → a = b

namespace Tidy

/-- Unless the slot is one of a refresh, there is none to join. -/
theorem flight_eq_none (h : m.Tidy) (hs : m.slot.isRefreshing = false) : m.flight = none := by
  cases hf : m.flight with
  | none => rfl
  | some flight =>
    have hrefreshing := h.flight (by simp [hf])
    rw [hs] at hrefreshing
    cases hrefreshing

/-- Unless the slot is one of an exchange, none is of the current generation. -/
theorem generation_ne (h : m.Tidy) (hs : m.slot ≠ .authorizing) :
    ∀ a ∈ m.authorizations, a.generation ≠ m.generation := by
  intro a ha hg
  exact hs (h.exchanging a ha hg)

/-- If there is no refresh to join and no exchange of the current generation, the slot has nothing
to tell. -/
theorem of_quiet (hf : m.flight = none)
    (ha : ∀ a ∈ m.authorizations, a.generation ≠ m.generation) : m.Tidy := by
  constructor
  case flight =>
    intro hne
    exact absurd hf hne
  case exchanging =>
    intro a hmem hg
    exact absurd hg (ha a hmem)
  case unique =>
    intro a hmem b _ hg
    exact absurd hg (ha a hmem)

/-- Once the exchange of the current generation has ended, none is of that generation. -/
theorem ne_of_ended (h : m.Tidy) {a : Authorization} (ha : a ∈ m.authorizations)
    (hg : a.generation = m.generation) :
    ∀ b ∈ m.authorizations.filter (·.number != a.number), b.generation ≠ m.generation := by
  intro b hb hg'
  obtain ⟨hb, hn⟩ := List.mem_filter.mp hb
  obtain rfl := h.unique b hb a ha hg' hg
  simp at hn

/-- Taking exchanges off the list leaves the slot telling what is under way. -/
theorem filter_authorizations (h : m.Tidy) (p : Authorization → Bool) (ws : List Waiter) :
    Tidy { m with authorizations := m.authorizations.filter p, waiters := ws } := by
  refine ⟨h.flight, ?_, ?_⟩
  · intro a ha hg
    exact h.exchanging a (List.mem_filter.mp ha).1 hg
  · intro a ha b hb hga hgb
    exact h.unique a (List.mem_filter.mp ha).1 b (List.mem_filter.mp hb).1 hga hgb

/-- A refresh that counts has no exchange beside it. -/
theorem ne_of_awaits (h : m.Tidy) {r : Refresh} (hw : m.awaits r = true) :
    ∀ a ∈ m.authorizations, a.generation ≠ m.generation := by
  apply h.generation_ne
  intro hs
  simp [awaits, hs, Slot.isRefreshing] at hw

/-- The end of a refresh leaves the slot telling what is under way. -/
theorem refreshEnd (h : m.Tidy) {r : Refresh} {u : Ruling} {now : Instant}
    (he : RefreshEnd m r u now m' out) : m'.Tidy := by
  cases he with
  | broken hu hf =>
    obtain ⟨hf, rfl⟩ | ⟨hf, rfl⟩ := hf
    · refine ⟨?_, h.exchanging, h.unique⟩
      intro _
      apply h.flight
      simp [hf]
    · exact ⟨h.flight, h.exchanging, h.unique⟩
  | late hu hw => exact ⟨h.flight, h.exchanging, h.unique⟩
  | granted hu hw =>
    apply of_quiet
    · rfl
    · exact h.ne_of_awaits hw
  | refused hu hw =>
    apply of_quiet
    · rfl
    · exact h.ne_of_awaits hw

/-- The end of an exchange leaves the slot telling what is under way. -/
theorem exchangeEnd (h : m.Tidy) {a : Authorization} (ha : a ∈ m.authorizations) {u : Ruling}
    {now : Instant} (he : ExchangeEnd m a u now m' out) : m'.Tidy := by
  have hflight : m.generation = a.generation → m.flight = none := by
    intro hg
    apply h.flight_eq_none
    rw [h.exchanging a ha hg.symm]
    rfl
  cases he with
  | broken hu => exact h.filter_authorizations _ _
  | grantedLate hu hg => exact h.filter_authorizations _ _
  | refusedLate hu hg => exact h.filter_authorizations _ _
  | granted hu hg => exact of_quiet (hflight hg) (h.ne_of_ended ha hg.symm)
  | refused hu hg hs => exact of_quiet (hflight hg) (h.ne_of_ended ha hg.symm)

/-- **A step leaves the slot telling what is under way**, if a generation that it begins is a new
one. -/
theorem move (h : m.Tidy) (hm : Move m e m' out)
    (hnew : m'.generation ≠ m.generation → m.Unclaimed m'.generation) : m'.Tidy := by
  cases hm with
  | answered hd => exact h
  | stuck hd hf => exact h
  | unasked hr ha => exact h
  | joined hd hf => exact ⟨h.flight, h.exchanging, h.unique⟩
  | overwritten => exact ⟨h.flight, h.exchanging, h.unique⟩
  | left => exact h.filter_authorizations _ _
  | refreshEnds hr he => exact h.refreshEnd he
  | exchangeEnds hr ha he => exact h.exchangeEnd ha he
  | forgotten =>
    apply of_quiet
    · rfl
    · exact (hnew (succ_ne _)).2
  | started hd hf hs =>
    obtain ⟨-, ha⟩ := hnew (succ_ne _)
    refine ⟨fun _ => rfl, ?_, ?_⟩
    · intro a hmem hg
      exact absurd hg (ha a hmem)
    · intro a hmem b _ hg
      exact absurd hg (ha a hmem)
  | @began caller =>
    obtain ⟨-, ha⟩ := hnew (succ_ne _)
    let begun : Authorization := ⟨m.requests, caller, m.generation + 1, m.slot⟩
    -- Of the current generation there is only the exchange that has just begun.
    have hlast : ∀ b ∈ m.authorizations ++ [begun], b.generation = m.generation + 1 →
        b = begun := by
      intro b hb hg
      rcases List.mem_append.mp hb with hb | hb
      · exact absurd hg (ha b hb)
      · exact List.mem_singleton.mp hb
    refine ⟨?_, fun _ _ _ => rfl, ?_⟩
    · intro hne
      exact absurd rfl hne
    · intro a hmem b hmem' hga hgb
      rw [hlast a hmem hga, hlast b hmem' hgb]

/-- In a run of new generations the slot goes on telling what is under way. -/
theorem after (h : m.Tidy) {es : List Event} (hrenews : m.Renews es) : (m.after es).Tidy := by
  induction es generalizing m with
  | nil => exact h
  | cons e es ih =>
    obtain ⟨hnew, hrest⟩ := hrenews
    exact ih (h.move (step_move m e) hnew) hrest

end Tidy

end Manager

end Courier.Auth
