import Courier.Proofs.Auth.Course
import Courier.Proofs.Auth.Ruling

/-!
# Which outcomes count

Refreshes and exchanges overlap, and the issuer may reply to them in any order. Which outcome is
taken over is settled by the generation that a request bears, and comes down to this
(`committed_iff_not_superseded`):

* The outcome of a refresh is taken over if and only if nobody logged out or brought back a code
  between its request and its reply.
* The credential that a code is exchanged for is taken over if and only if nobody logged out or
  brought back another code in between.
* An outcome that is not taken over changes nothing of what a manager goes by: not the slot, not
  the refresh to join, not the generation and not the file. Whoever waits for it learns that there
  is no credential.

`Manager.Commits` says what taking over an outcome does, and `Manager.Untouched` that nothing is
done. The two exclude each other, since an outcome that is taken over changes the slot.
-/

namespace Courier.Auth

open Courier.Http Courier.Store Courier.Text Courier.Time

/-! ## Taking over an outcome -/

/-- The slot that a ruling leads to when it counts. -/
def Ruling.slot : Ruling → Slot → Slot
  | .granted c, _ => .authenticated c
  | .refused _, _ => .expired
  | .brokenOff, s => s

/-- What stands in the place of the file after a ruling that counts: the new credential, if there is
one. -/
def Ruling.kept (now : Instant) : Ruling → Node → Node
  | .granted c, n => keepCredential c now n
  | .refused _, n => n
  | .brokenOff, n => n

namespace Manager

/-- The outcome `u` is taken over, which leads from `m` to `m'`. -/
structure Commits (m : Manager) (u : Ruling) (now : Instant) (m' : Manager) : Prop where
  changes : m'.slot ≠ m.slot
  slot : m'.slot = u.slot m.slot
  flight : m'.flight = none
  generation : m'.generation = m.generation
  file : m'.file = m.file.map (u.kept now)

/-- Nothing that a manager goes by is different in `m'`. -/
structure Untouched (m m' : Manager) : Prop where
  slot : m'.slot = m.slot
  flight : m'.flight = m.flight
  generation : m'.generation = m.generation
  file : m'.file = m.file

variable {m m' : Manager} {out : List Output} {u : Ruling} {now : Instant}

/-- An outcome is not both taken over and without effect. -/
theorem Untouched.not_commits (h : m.Untouched m') : ¬ m.Commits u now m' := by
  intro hc
  exact hc.changes h.slot

/-- A credential that is taken over is stored, unless there is no file to store it in or a directory
stands in its place. -/
theorem Commits.stored {c : Credential} (h : m.Commits (.granted c) now m') {n : Node}
    (hf : m.file = some n) (hn : n ≠ .directory) :
    m'.file =
      some (.file (octets { tokens := some c, lastRefresh := some now : Stored }.text)) := by
  have hfile := h.file
  rw [hf] at hfile
  rw [hfile]
  cases n with
  | absent => rfl
  | file content => rfl
  | directory => exact absurd rfl hn

/-- A refresh that counts is taken over. -/
theorem RefreshEnd.commits {r : Refresh} (he : RefreshEnd m r u now m' out) (hu : u ≠ .brokenOff)
    (hw : m.awaits r = true) : m.Commits u now m' := by
  have hs : m.slot.isRefreshing = true := by
    unfold awaits at hw
    rw [Bool.and_eq_true] at hw
    exact hw.2
  have hchanges : ∀ s : Slot, s.isRefreshing = false → s ≠ m.slot := by
    rintro s hs' rfl
    rw [hs] at hs'
    cases hs'
  cases he with
  | broken hu' hf => exact absurd hu' hu
  | late hu' hw' =>
    rw [hw] at hw'
    cases hw'
  | granted hu' hw' =>
    subst hu'
    exact ⟨hchanges _ rfl, rfl, rfl, rfl, rfl⟩
  | refused hu' hw' =>
    subst hu'
    refine ⟨hchanges _ rfl, rfl, rfl, rfl, ?_⟩
    show m.file = m.file.map id
    rw [Option.map_id]
    rfl

/-- A refresh that does not count changes nothing, and there is no credential for those who wait. -/
theorem RefreshEnd.untouched {r : Refresh} (he : RefreshEnd m r u now m' out)
    (hu : u ≠ .brokenOff) (hw : m.awaits r = false) :
    m.Untouched m' ∧ out = m.tellWaiters r (.error .notAuthenticated) := by
  cases he with
  | broken hu' hf => exact absurd hu' hu
  | late hu' hw' => exact ⟨⟨rfl, rfl, rfl, rfl⟩, rfl⟩
  | granted hu' hw' => simp [hw] at hw'
  | refused hu' hw' => simp [hw] at hw'

/-- A credential from an exchange that counts is taken over. -/
theorem ExchangeEnd.commits {a : Authorization} {c : Credential}
    (he : ExchangeEnd m a (.granted c) now m' out) (hg : m.generation = a.generation)
    (hs : m.slot = .authorizing) (hf : m.flight = none) :
    m.Commits (.granted c) now m' ∧ out = [.credential a.caller (.ok c)] := by
  cases he with
  | granted hu hg' =>
    cases hu
    exact ⟨⟨by simp [hs], rfl, hf, rfl, rfl⟩, rfl⟩
  | grantedLate hu hg' => exact absurd hg hg'
  | broken hu => cases hu
  | refusedLate hu hg' => cases hu
  | refused hu hg' hs' => cases hu

/-- An exchange that does not count changes nothing. -/
theorem ExchangeEnd.untouched {a : Authorization} (he : ExchangeEnd m a u now m' out)
    (hg : m.generation ≠ a.generation) : m.Untouched m' := by
  cases he with
  | granted hu hg' => exact absurd hg' hg
  | refused hu hg' hs => exact absurd hg' hg
  | _ => exact ⟨rfl, rfl, rfl, rfl⟩

/-- From an exchange that does not count there is no credential to be had. -/
theorem ExchangeEnd.told {a : Authorization} {c : Credential}
    (he : ExchangeEnd m a (.granted c) now m' out) (hg : m.generation ≠ a.generation) :
    out = [.credential a.caller (.error .notAuthenticated)] := by
  cases he with
  | grantedLate hu hg' => rfl
  | granted hu hg' => exact absurd hg' hg
  | broken hu => cases hu
  | refusedLate hu hg' => cases hu
  | refused hu hg' hs => cases hu

end Manager

/-! ## What decides it -/

namespace Course

variable {k : Course}

/-- In the course of a request, the ruling `u` on the reply is taken over. -/
def Commits (k : Course) (u : Ruling) : Prop :=
  k.pending.Commits u k.now k.closing

/-- In the course of a request, the reply changes nothing. -/
def Untouched (k : Course) : Prop :=
  k.pending.Untouched k.closing

/-- What those get who wait for the reply, if there is no credential for them. -/
def turnedAway (k : Course) : List Output :=
  (k.pending.waiters.filter (·.number == k.number)).map
    fun w => .bearer w.caller (.error .notAuthenticated)

/-- **Refreshes.** The outcome is taken over if and only if nothing superseded the refresh, and
otherwise nothing happens but that those who wait learn of it. -/
theorem refresh_committed (hrange : (Event.reply k.number k.reply k.now).InRange)
    {caller : Caller} {d : Demand} (hstart : k.start = .demand caller d) :
    ∃ c, k.opening.slot = .authenticated c ∧ k.draft = k.origin.config.refreshDraft c ∧
      (k.Commits (.ofRefresh k.origin.config c k.now k.reply) ↔ ¬ k.Superseded) ∧
      (k.Superseded → k.Untouched ∧ k.told = k.turnedAway) ∧
      ((∀ e ∈ k.during, e.takesAway caller = false) →
        .bearer caller (.error .notAuthenticated) ∈ k.turnedAway) := by
  obtain ⟨r, hr, hn, hslot, hdraft, hgen, hwaits⟩ := k.exists_refresh hstart
  have hend := (k.pending.step_move (.reply k.number k.reply k.now)).refreshEnd
    k.pending_coherent.numbers hr hn
  rw [pending_config] at hend
  have hu : Ruling.ofRefresh k.origin.config r.credential k.now k.reply ≠ .brokenOff :=
    (Event.inRange_reply_iff _ _).mp hrange
  have hawaits := (k.pending_coherent.awaits_iff_generation hr).trans hgen
  have huntouched : k.Superseded → k.Untouched ∧ k.told = k.turnedAway := by
    intro hsup
    have hw : k.pending.awaits r = false := by
      rw [Bool.eq_false_iff]
      intro hw
      exact hawaits.mp hw hsup
    obtain ⟨huntouched, htold⟩ := hend.untouched hu hw
    refine ⟨huntouched, htold.trans ?_⟩
    rw [turnedAway, ← hn]
    rfl
  refine ⟨r.credential, hslot, hdraft, ⟨?_, ?_⟩, huntouched, ?_⟩
  · intro hc hsup
    exact (huntouched hsup).1.not_commits hc
  · intro hsup
    exact hend.commits hu (hawaits.mpr hsup)
  · intro hstays
    unfold turnedAway
    apply List.mem_map.mpr
    exact ⟨_, List.mem_filter.mpr ⟨hwaits hstays, beq_self_eq_true _⟩, rfl⟩

/-- **Exchanges.** A credential is taken over if and only if nothing superseded the exchange, and
otherwise nothing happens but that the caller learns of it. -/
theorem exchange_committed {caller : Caller} {verifier code : String}
    (hstart : k.start = .authorize caller verifier code)
    (hstays : ∀ e ∈ k.during, e.takesAway caller = false) :
    k.draft = k.origin.config.exchangeDraft verifier code ∧
      (∀ c, Ruling.ofExchange k.origin.config k.now k.reply = .granted c →
        (k.Commits (.granted c) ↔ ¬ k.Superseded) ∧
        (k.Superseded → k.told = [.credential caller (.error .notAuthenticated)])) ∧
      (k.Superseded → k.Untouched) := by
  obtain ⟨a, ha, hn, hcaller, -, hdraft, hgen⟩ := k.exists_authorization hstart hstays
  have hend := (k.pending.step_move (.reply k.number k.reply k.now)).exchangeEnd
    k.pending_coherent.numbers ha hn
  rw [pending_config] at hend
  have hlate : k.Superseded → k.pending.generation ≠ a.generation := by
    intro hsup he
    exact hgen.mp he.symm hsup
  have huntouched : k.Superseded → k.Untouched := by
    intro hsup
    exact hend.untouched (hlate hsup)
  refine ⟨hdraft, ?_, huntouched⟩
  intro c hc
  rw [hc] at hend
  refine ⟨⟨?_, ?_⟩, ?_⟩
  · intro hcommits hsup
    exact (huntouched hsup).not_commits hcommits
  · intro hsup
    have hg := hgen.mpr hsup
    have hs := k.pending_coherent.exchanging a ha hg
    have hf := k.pending_coherent.flight_of_exchanging ha hg
    exact (hend.commits hg.symm hs hf).1
  · intro hsup
    rw [← hcaller]
    exact hend.told (hlate hsup)

/-- **An outcome is taken over if and only if nothing superseded what it is the outcome of.** A
refresh is superseded by logging out and by bringing back a code, an exchange by logging out and by
bringing back another code, between the request and the reply. What comes of something superseded
changes neither the slot nor the refresh to join nor the generation nor the file, and there is no
credential for those who wait for it, the caller that needed the refresh among them. -/
theorem committed_iff_not_superseded (k : Course)
    (hrange : (Event.reply k.number k.reply k.now).InRange) :
    (∀ caller d, k.start = .demand caller d →
      ∃ c, k.opening.slot = .authenticated c ∧ k.draft = k.origin.config.refreshDraft c ∧
        (k.Commits (.ofRefresh k.origin.config c k.now k.reply) ↔ ¬ k.Superseded) ∧
        (k.Superseded → k.Untouched ∧ k.told = k.turnedAway) ∧
        ((∀ e ∈ k.during, e.takesAway caller = false) →
          .bearer caller (.error .notAuthenticated) ∈ k.turnedAway)) ∧
    (∀ caller verifier code, k.start = .authorize caller verifier code →
      (∀ e ∈ k.during, e.takesAway caller = false) →
      k.draft = k.origin.config.exchangeDraft verifier code ∧
        (∀ c, Ruling.ofExchange k.origin.config k.now k.reply = .granted c →
          (k.Commits (.granted c) ↔ ¬ k.Superseded) ∧
          (k.Superseded → k.told = [.credential caller (.error .notAuthenticated)])) ∧
        (k.Superseded → k.Untouched)) := by
  constructor
  · intro caller d hstart
    exact refresh_committed hrange hstart
  · intro caller verifier code hstart hstays
    exact exchange_committed hstart hstays

/-- Somebody logs out while a credential is refreshed. -/
def outrun : Course :=
  .ofSpent [.logout] (successWith "\x7b\"access_token\":\"b\",\"expires_in\":60\x7d")
    (by simp [Event.repliesTo]) (by decide +kernel)

/-- The credential that the issuer grants after the user has logged out is not taken over, and
whoever asked for it gets none. -/
theorem outrun_untouched :
    (Event.reply outrun.number outrun.reply outrun.now).InRange ∧ outrun.Superseded ∧
      outrun.Untouched ∧ outrun.told = [.bearer 0 (.error .notAuthenticated)] := by
  have hrange : (Event.reply outrun.number outrun.reply outrun.now).InRange := by decide +kernel
  have hsup : outrun.Superseded := ⟨.logout, .head _, rfl⟩
  obtain ⟨hrefresh, -⟩ := committed_iff_not_superseded outrun hrange
  obtain ⟨c, -, -, -, huntouched, -⟩ := hrefresh 0 (.valid .epoch) rfl
  obtain ⟨huntouched, htold⟩ := huntouched hsup
  refine ⟨hrange, hsup, huntouched, htold.trans ?_⟩
  rfl

end Course

end Courier.Auth
