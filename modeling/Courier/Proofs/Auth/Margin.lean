import Courier.Proofs.Auth.Reuse
import Courier.Proofs.Time.Spans

/-!
# For how long bearers hold

Who asks for a bearer is to get one that holds for longer than the margin (`Bearer.Outlives`). A
credential that does not is refreshed first, and so a bearer that is handed out at once does hold
that long. But what a refresh brings is handed out as it comes, and how long it holds is up to the
issuer: **`handed_out_outlives_iff`** says that a bearer outlives the margin exactly if it is not
one from a grant that ends within the margin (`Event.GrantsShort`). `not_always_outlives` is a run
with such a grant.

The margin is compared with the time that is left in nanoseconds, leap seconds and all
(`Instant.since`). Margins that are too long to be told from each other are longer than any time
there can be left (`Credential.expiresWithin_eq_false_iff`).
-/

namespace Courier

open Courier.Time

/-! ## Time that is left -/

/-- No time between two instants is longer than the longest margin. -/
theorem Time.Instant.since_le (t u : Instant) : t.since u ≤ Auth.Credential.longestMargin := by
  obtain ⟨s, -, htotal⟩ := t.exists_difference? u
  have hlongest : s.total ≤ longestSpan := s.le_longest
  have hmargin : longestSpan = Auth.Credential.longestMargin := by decide
  rwa [htotal, hmargin] at hlongest

namespace Auth

open Courier.Http

/-- A credential does not expire within a margin exactly if there is more time left. -/
theorem Credential.expiresWithin_eq_false_iff {c : Credential} {margin : Nat} {now : Instant} :
    c.expiresWithin margin now = false ↔ (margin : Int) < c.expiresAt.since now := by
  have hle := c.expiresAt.since_le now
  unfold Credential.expiresWithin
  rw [decide_eq_false_iff_not]
  omega

/-- A bearer holds for longer than a margin of nanoseconds from `now`, or for ever. -/
def Bearer.Outlives (margin : Nat) (now : Instant) (b : Bearer) : Prop :=
  ∀ t ∈ b.expiresAt, (margin : Int) < t.since now

instance (margin : Nat) (now : Instant) (b : Bearer) : Decidable (b.Outlives margin now) :=
  inferInstanceAs (Decidable (∀ t ∈ b.expiresAt, (margin : Int) < t.since now))

/-- The time at which an event lets those go on who have asked for a bearer that holds. -/
def Event.moment? : Event → Option Instant
  | .demand _ (.valid now) => some now
  | .reply _ _ now => some now
  | _ => none

/-- A reply grants tokens that do not outlive the margin. -/
def Event.GrantsShort (config : Config) : Event → Prop
  | .reply _ r now => ∃ g expiresAt, Grant.ofReply? r = some g ∧ g.expiresAt? now = some expiresAt ∧
      expiresAt.since now ≤ config.refreshMargin
  | _ => False

namespace Manager

variable {m m' : Manager} {e : Event} {out : List Output} {caller : Caller} {b : Bearer}
  {now : Instant}

/-- What is handed out at once holds for longer than the margin. -/
theorem outlives_of_answer? {config : Config} {s : Slot}
    (h : (Demand.valid now).answer? config s = some (.ok b)) :
    b.Outlives config.refreshMargin now := by
  cases s with
  | apiKey key =>
    obtain rfl : Bearer.ofApiKey key = b := by simpa [Demand.answer?, Demand.fromApiKey] using h
    intro t ht
    cases ht
  | authenticated c =>
    rw [Demand.answer?] at h
    split at h
    next hmet =>
      obtain rfl : c.bearer = b := by simpa using h
      have hfresh : c.expiresWithin config.refreshMargin now = false := by
        simpa [Demand.metBy] using hmet
      intro t ht
      obtain rfl : c.expiresAt = t := Option.some.inj ht
      exact Credential.expiresWithin_eq_false_iff.mp hfresh
    next => cases h
  | _ => simp [Demand.answer?] at h

/-- What a refresh brings holds for longer than the margin unless the grant ends within it. -/
theorem outlives_iff_of_granted {config : Config} {c c' : Credential} {number : Nat} {reply : Reply}
    (h : Ruling.ofRefresh config c now reply = .granted c') :
    c'.bearer.Outlives config.refreshMargin now ↔
      ¬ (Event.reply number reply now).GrantsShort config := by
  obtain ⟨g, hreply, hmade⟩ := Ruling.exists_of_ofRefresh_eq_granted h
  obtain ⟨-, hexpires, -⟩ := Credential.ofGrant_eq_ok_iff.mp hmade
  constructor
  · rintro houtlives ⟨g', t, hreply', hexpires', hshort⟩
    obtain rfl := Option.some.inj (hreply.symm.trans hreply')
    have hlong := houtlives c'.expiresAt rfl
    rw [Option.some.inj (hexpires.symm.trans hexpires')] at hlong
    omega
  · intro hlong t ht
    obtain rfl : c'.expiresAt = t := Option.some.inj ht
    apply Int.not_le.mp
    intro hshort
    exact hlong ⟨g, c'.expiresAt, hreply, hexpires, hshort⟩

/-- **A bearer that is handed out outlives the margin**, unless it comes from a grant that ends
within it. -/
theorem Move.outlives_margin_iff (hm : Move m e m' out) (hnow : e.moment? = some now)
    (hb : .bearer caller (.ok b) ∈ out) :
    b.Outlives m.config.refreshMargin now ↔ ¬ e.GrantsShort m.config := by
  cases hm with
  | @answered _ d r hd =>
    obtain ⟨-, rfl⟩ : caller = _ ∧ .ok b = r := by simpa using hb
    cases d with
    | valid at' =>
      obtain rfl : at' = now := Option.some.inj hnow
      exact iff_of_true (outlives_of_answer? hd) id
    | other stale => cases hnow
  | @refreshEnds reply at' r _ _ hr he =>
    obtain rfl : at' = now := Option.some.inj hnow
    cases he with
    | @granted c hu hw =>
      obtain rfl : b = c.bearer := Except.ok.inj (eq_of_mem_tellWaiters hb)
      exact outlives_iff_of_granted hu
    | _ => cases eq_of_mem_tellWaiters hb
  | exchangeEnds hr ha he => cases he <;> simp at hb
  | _ => simp at hb

/-- **Every bearer that is handed out in a run outlives the margin**, unless it comes from a grant
that ends within it. -/
theorem handed_out_outlives_iff (m : Manager) (es : List Event) (e : Event)
    (hnow : e.moment? = some now)
    (hb : .bearer caller (.ok b) ∈ ((m.after es).step e).2) :
    b.Outlives m.config.refreshMargin now ↔ ¬ e.GrantsShort m.config := by
  rw [← config_after m es]
  exact (step_move (m.after es) e).outlives_margin_iff hnow hb

/-- A caller asks for a bearer when the credential has expired. -/
def shortRun : List Event :=
  [.demand 0 (.valid .epoch)]

/-- The issuer grants a token for half of the margin. -/
def shortReply : Event :=
  .reply 0 (successWith "\x7b\"access_token\":\"b\",\"expires_in\":30\x7d") .epoch

/-- Whether an output is a bearer that does not outlive a margin. -/
def handsOutShort (margin : Nat) (now : Instant) : Output → Bool
  | .bearer _ (.ok b) => decide (¬ b.Outlives margin now)
  | _ => false

/-- That token is handed out. -/
theorem short_handed_out :
    ∃ caller b, .bearer caller (.ok b) ∈
        (((ofCredential {} .spent).after shortRun).step shortReply).2 ∧
      ¬ b.Outlives (60 * Time.nanosPerSecond) .epoch := by
  have hany : (((ofCredential {} .spent).after shortRun).step shortReply).2.any
      (handsOutShort (60 * Time.nanosPerSecond) .epoch) = true := by
    decide +kernel
  obtain ⟨o, ho, hshort⟩ := List.any_eq_true.mp hany
  cases o with
  | bearer caller r =>
    cases r with
    | ok b => exact ⟨caller, b, ho, of_decide_eq_true hshort⟩
    | error f => cases hshort
  | _ => cases hshort

/-- A bearer that is handed out does not always outlive the margin. -/
theorem not_always_outlives :
    ¬ ∀ m es e now caller b, Made m → m.bumps es < UInt64.size → e.moment? = some now →
      .bearer caller (.ok b) ∈ ((m.after es).step e).2 →
        b.Outlives m.config.refreshMargin now := by
  intro h
  obtain ⟨caller, b, hb, hshort⟩ := short_handed_out
  have hroom : (ofCredential {} .spent).bumps shortRun < UInt64.size := by decide +kernel
  exact hshort (h _ shortRun shortReply .epoch caller b (.ofCredential {} .spent) hroom rfl hb)

/-- It does not outlive the margin because the grant does not. -/
theorem shortReply_grantsShort :
    shortReply.moment? = some .epoch ∧
      (∃ caller b, .bearer caller (.ok b) ∈
          (((ofCredential {} .spent).after shortRun).step shortReply).2 ∧
        (b.Outlives (60 * Time.nanosPerSecond) .epoch ↔ ¬ shortReply.GrantsShort {})) ∧
      shortReply.GrantsShort {} := by
  obtain ⟨caller, b, hb, hshort⟩ := short_handed_out
  have hiff := handed_out_outlives_iff (ofCredential {} .spent) shortRun shortReply rfl hb
  refine ⟨rfl, ⟨caller, b, hb, hiff⟩, ?_⟩
  exact Classical.byContradiction fun hlong => hshort (hiff.mpr hlong)

end Manager

end Auth

end Courier
