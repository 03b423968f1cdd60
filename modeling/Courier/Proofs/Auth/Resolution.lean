import Courier.Proofs.Auth.Fencing

/-!
# Whether a refresh leads anywhere

A refresh that nothing supersedes should end with a new credential or with none, and with nothing
left to join (`Course.Resolved`). It does so for every status, every body, every failure to reply
and every time, with one exception, a grant whose expiry is out of range:
**`resolved_iff_inRange`**.

After such a grant the slot is still one of a refresh, although none is open, and the refresh to
join is one that has been broken off. A manager like that is `Manager.Jammed`. It gives every later
caller the same failure, and stays as it is until somebody logs out or brings back a code
(`Jammed.after`). A grant that says it holds for 2⁶³ - 1 seconds is enough
(`not_always_resolved`).
-/

namespace Courier.Auth

open Courier.Http Courier.Store Courier.Time

/-! ## Jammed managers -/

namespace Manager

variable {m m' : Manager} {e : Event} {out : List Output} {c : Credential}

/-- A credential is being refreshed for ever, and the reply has already come. -/
structure Jammed (m : Manager) (c : Credential) : Prop where
  slot : m.slot = .refreshing c
  flight : m.flight = some .brokenOff
  refreshes : ∀ r ∈ m.refreshes, r.generation ≠ m.generation
  authorizations : ∀ a ∈ m.authorizations, a.generation ≠ m.generation

/-- The end of another refresh does not help. -/
theorem Jammed.refreshEnd (h : m.Jammed c) {r : Refresh} (hr : r ∈ m.refreshes) {u : Ruling}
    {now : Instant} (he : RefreshEnd m r u now m' out) : m'.Jammed c := by
  have hlate : m.awaits r ≠ true := by
    intro hw
    exact h.refreshes r hr (generation_eq_of_awaits hw)
  have hrefreshes : ∀ s ∈ m.refreshes.filter (·.number != r.number),
      s.generation ≠ m.generation := by
    intro s hs
    exact h.refreshes s (List.mem_filter.mp hs).1
  cases he with
  | broken hu hf =>
    obtain ⟨hf, -⟩ | ⟨-, rfl⟩ := hf
    · rw [h.flight] at hf
      cases hf
    · exact ⟨h.slot, h.flight, hrefreshes, h.authorizations⟩
  | late hu hw => exact ⟨h.slot, h.flight, hrefreshes, h.authorizations⟩
  | granted hu hw => exact absurd hw hlate
  | refused hu hw => exact absurd hw hlate

/-- The end of an exchange does not help. -/
theorem Jammed.exchangeEnd (h : m.Jammed c) {a : Authorization} (ha : a ∈ m.authorizations)
    {u : Ruling} {now : Instant} (he : ExchangeEnd m a u now m' out) : m'.Jammed c := by
  have hauthorizations : ∀ b ∈ m.authorizations.filter (·.number != a.number),
      b.generation ≠ m.generation := by
    intro b hb
    exact h.authorizations b (List.mem_filter.mp hb).1
  cases he with
  | granted hu hg => exact absurd hg.symm (h.authorizations a ha)
  | refused hu hg hs => exact absurd hg.symm (h.authorizations a ha)
  | _ => exact ⟨h.slot, h.flight, h.refreshes, hauthorizations⟩

/-- **A jammed manager stays so at every step** but one that supersedes what is under way. -/
theorem Jammed.move (h : m.Jammed c) (hm : Move m e m' out) (hsup : e.supersedes = false) :
    m'.Jammed c := by
  cases hm with
  | joined hd hf =>
    rw [h.flight] at hf
    cases hf
  | started hd hf hs =>
    rw [h.flight] at hf
    cases hf
  | began => cases hsup
  | forgotten => cases hsup
  | left =>
    refine ⟨h.slot, h.flight, h.refreshes, ?_⟩
    intro a ha
    exact h.authorizations a (List.mem_filter.mp ha).1
  | overwritten => exact ⟨h.slot, h.flight, h.refreshes, h.authorizations⟩
  | refreshEnds hr he => exact h.refreshEnd hr he
  | exchangeEnds hr ha he => exact h.exchangeEnd ha he
  | answered hd => exact h
  | stuck hd hf => exact h
  | unasked hr ha => exact h

/-- A jammed manager stays so until something supersedes what is under way. -/
theorem Jammed.after (h : m.Jammed c) {es : List Event}
    (hsup : ∀ e ∈ es, e.supersedes = false) : (m.after es).Jammed c := by
  apply after_induction_of (P := fun m => m.Jammed c)
  · intro m e he hm
    exact hm.move (step_move m e) he
  · exact h
  · exact hsup

/-- A jammed manager has the same failure for whoever asks. -/
theorem Jammed.answers (h : m.Jammed c) {caller : Caller} {d : Demand}
    (hm : Move m (.demand caller d) m' out) :
    out = [.bearer caller (.error brokenOffFailure)] := by
  cases hm with
  | answered hd => simp [h.slot, Demand.answer?] at hd
  | joined hd hf => cases h.flight.symm.trans hf
  | stuck hd hf => rfl
  | started hd hf hs => cases h.flight.symm.trans hf

/-- A refresh to join that comes to no ruling jams a manager. -/
theorem RefreshEnd.jams (h : m.Coherent) {r : Refresh} (hr : r ∈ m.refreshes)
    (hg : r.generation = m.generation) {now : Instant}
    (he : RefreshEnd m r .brokenOff now m' out) : m'.Jammed r.credential := by
  have hf := h.current r hr hg
  obtain ⟨s, hs, hn, -, hslot⟩ := h.running _ hf
  obtain rfl := Stamped.refresh_inj h.numbers hs hr hn
  obtain ⟨hrefreshes, hauthorizations⟩ := h.ne_of_refresh hr hg
  cases he with
  | broken hu hf' =>
    obtain ⟨-, rfl⟩ | ⟨hne, -⟩ := hf'
    · exact ⟨hslot, rfl, hrefreshes, hauthorizations⟩
    · exact absurd hf hne
  | late hu hw => exact absurd rfl hu
  | granted hu hw => cases hu
  | refused hu hw => cases hu

end Manager

/-! ## Where a refresh leads -/

namespace Course

variable {k : Course}

/-- The refresh has led to a new credential, or the old one is given up; there is nothing to
join. -/
def Resolved (k : Course) : Prop :=
  k.closing.flight = none ∧
    (k.closing.slot = .expired ∨
      ∃ c c', k.opening.slot = .authenticated c ∧
        Ruling.ofRefresh k.origin.config c k.now k.reply = .granted c' ∧
        k.closing.slot = .authenticated c')

/-- A refresh whose reply is in range leads somewhere. -/
theorem resolved_of_inRange (hrange : (Event.reply k.number k.reply k.now).InRange)
    {caller : Caller} {d : Demand} (hstart : k.start = .demand caller d) (hsup : ¬ k.Superseded) :
    k.Resolved := by
  obtain ⟨c, hslot, -, hcommits, -, -⟩ := refresh_committed hrange hstart
  have hcommits := hcommits.mpr hsup
  refine ⟨hcommits.flight, ?_⟩
  have hend := hcommits.slot
  cases hu : Ruling.ofRefresh k.origin.config c k.now k.reply with
  | granted c' =>
    rw [hu] at hend
    exact .inr ⟨c, c', hslot, hu, hend⟩
  | refused f =>
    rw [hu] at hend
    exact .inl hend
  | brokenOff => exact absurd hu ((Event.inRange_reply_iff _ _).mp hrange)

/-- A refresh whose reply is out of range jams the manager. -/
theorem jammed_of_not_inRange (hrange : ¬ (Event.reply k.number k.reply k.now).InRange)
    {caller : Caller} {d : Demand} (hstart : k.start = .demand caller d) (hsup : ¬ k.Superseded) :
    ∃ c, k.opening.slot = .authenticated c ∧ k.closing.Jammed c := by
  obtain ⟨r, hr, hn, hslot, -, hgen, -⟩ := k.exists_refresh hstart
  have hend := (k.pending.step_move (.reply k.number k.reply k.now)).refreshEnd
    k.pending_coherent.numbers hr hn
  have hu : Ruling.ofRefresh k.pending.config r.credential k.now k.reply = .brokenOff := by
    rw [Event.inRange_reply_iff k.pending.config r.credential] at hrange
    exact Decidable.not_not.mp hrange
  rw [hu] at hend
  exact ⟨r.credential, hslot, hend.jams k.pending_coherent hr (hgen.mpr hsup)⟩

/-- **A refresh that nothing supersedes leads somewhere if and only if the reply is in range.**
Otherwise the manager is jammed, and has nothing but a failure for all who ask until somebody logs
out or brings back a code. -/
theorem resolved_iff_inRange (k : Course) {caller : Caller} {d : Demand}
    (hstart : k.start = .demand caller d) (hsup : ¬ k.Superseded) :
    (k.Resolved ↔ (Event.reply k.number k.reply k.now).InRange) ∧
      (¬ (Event.reply k.number k.reply k.now).InRange →
        ∃ c, k.opening.slot = .authenticated c ∧
          ∀ es, (∀ e ∈ es, e.supersedes = false) → (k.closing.after es).Jammed c ∧
            ∀ caller d, ((k.closing.after es).step (.demand caller d)).2 =
              [.bearer caller (.error brokenOffFailure)]) := by
  constructor
  · constructor
    · intro hresolved
      by_cases hrange : (Event.reply k.number k.reply k.now).InRange
      · exact hrange
      · obtain ⟨c, -, hjammed⟩ := jammed_of_not_inRange hrange hstart hsup
        have hf := hjammed.flight
        rw [hresolved.1] at hf
        cases hf
    · intro hrange
      exact resolved_of_inRange hrange hstart hsup
  · intro hrange
    obtain ⟨c, hslot, hjammed⟩ := jammed_of_not_inRange hrange hstart hsup
    refine ⟨c, hslot, ?_⟩
    intro es hes
    have hafter := hjammed.after hes
    refine ⟨hafter, ?_⟩
    intro caller d
    exact hafter.answers (Manager.step_move _ _)

/-- The issuer grants a credential that holds for longer than there are instants. -/
def overlong : Course :=
  .ofSpent [] (successWith "\x7b\"access_token\":\"b\",\"expires_in\":9223372036854775807\x7d")
    (by simp) (by decide +kernel)

/-- The grant is out of range, and from then on there is nothing but a failure. -/
theorem overlong_jammed :
    overlong.start = .demand 0 (.valid .epoch) ∧ ¬ overlong.Superseded ∧
      ¬ (Event.reply overlong.number overlong.reply overlong.now).InRange ∧
      ¬ overlong.Resolved := by
  have hsup : ¬ overlong.Superseded := by simp [Superseded, overlong, ofSpent]
  have hrange : ¬ (Event.reply overlong.number overlong.reply overlong.now).InRange := by
    decide +kernel
  obtain ⟨hiff, -⟩ := resolved_iff_inRange overlong rfl hsup
  refine ⟨rfl, hsup, hrange, ?_⟩
  intro hresolved
  exact hrange (hiff.mp hresolved)

/-- **Not every refresh leads somewhere.** -/
theorem not_always_resolved :
    ¬ ∀ k : Course, ∀ caller d, k.start = .demand caller d → ¬ k.Superseded → k.Resolved := by
  intro h
  have hflight := (h overlong 0 (.valid .epoch) rfl (by simp [Superseded, overlong, ofSpent])).1
  have hbroken : overlong.closing.flight = some .brokenOff := by decide +kernel
  rw [hbroken] at hflight
  cases hflight

end Course

end Courier.Auth
