import Courier.Proofs.Auth.Course

/-!
# Codes that are not exchanged

To exchange a code a manager gives up the refresh that may be under way, puts a mark in the slot and
remembers what stood there. If no credential comes of it, everything should be as it was before,
whatever happened in the meantime. `RolledBack` says what that comes to, and **`rolled_back`** that
it holds of every call that ends with a failure, unless somebody has logged out or brought back
another code since it began:

* What stood in the slot stands there again, but that a credential which was being refreshed is just
  a credential now. There is no refresh to join, and the file has not been touched.
* Until then whoever asked for a bearer got none, and nothing was sent.
* Whoever needs a refresh afterwards starts a new one, and does not join the one that was given up.

While the exchange goes on, refreshes may end in any way and callers may come and go. All of that
leaves the mark in the slot (`Exchanging.move`). So do replies to older exchanges, whose generations
are over; only one that has been open for 2⁶⁴ generations could be of the generation of this call,
and it is assumed that no reply to such a one comes in the meantime.
-/

namespace Courier.Auth

open Courier.Http Courier.Store Courier.Time

namespace Manager

variable {m m' : Manager} {e : Event} {out : List Output} {a : Authorization}

/-! ## While a code is exchanged -/

/-- The exchange `a` is the one that counts. -/
structure Exchanging (m : Manager) (a : Authorization) : Prop where
  slot : m.slot = .authorizing
  flight : m.flight = none
  generation : m.generation = a.generation

/-- No refresh counts while a code is exchanged. -/
theorem Exchanging.awaits_eq_false (h : m.Exchanging a) (r : Refresh) : m.awaits r = false := by
  simp [awaits, h.slot, Slot.isRefreshing]

/-- Whoever asks for a bearer while a code is exchanged gets none, and nothing is sent. -/
theorem Exchanging.refuses (h : m.Exchanging a) {caller : Caller} {d : Demand}
    (hm : Move m (.demand caller d) m' out) :
    m' = m ∧ out = [.bearer caller (.error .notAuthenticated)] := by
  have hanswer : d.answer? m.config m.slot = some (.error .notAuthenticated) := by
    rw [h.slot]
    rfl
  cases hm with
  | answered hd =>
    cases hanswer.symm.trans hd
    exact ⟨rfl, rfl⟩
  | joined hd hf => cases hanswer.symm.trans hd
  | stuck hd hf => cases hanswer.symm.trans hd
  | started hd hf hs => cases hanswer.symm.trans hd

/-- The end of a refresh does not touch the exchange. -/
theorem Exchanging.refreshEnd (h : m.Exchanging a) {r : Refresh} {u : Ruling} {now : Instant}
    (he : RefreshEnd m r u now m' out) : m'.Exchanging a ∧ m'.file = m.file := by
  have hnone : m.flight ≠ some (.running r.number) := by simp [h.flight]
  obtain ⟨rfl, -⟩ := he.eq_of_late (h.awaits_eq_false r) hnone
  exact ⟨⟨h.slot, h.flight, h.generation⟩, rfl⟩

/-- The end of an exchange of another generation does not touch this one. -/
theorem Exchanging.exchangeEnd (h : m.Exchanging a) {b : Authorization}
    (hb : b.generation ≠ a.generation) {u : Ruling} {now : Instant}
    (he : ExchangeEnd m b u now m' out) : m'.Exchanging a ∧ m'.file = m.file := by
  have hlate : m.generation ≠ b.generation := by
    rw [h.generation]
    exact hb.symm
  obtain ⟨rfl, -⟩ := he.eq_of_late hlate
  exact ⟨⟨h.slot, h.flight, h.generation⟩, rfl⟩

/-- What ends an exchange takes it off the list. -/
theorem ExchangeEnd.not_mem {u : Ruling} {now : Instant} (he : ExchangeEnd m a u now m' out) :
    a ∉ m'.authorizations := by
  intro ha
  have hmem : a ∈ m.authorizations.filter (·.number != a.number) := by
    cases he <;> exact ha
  simp at hmem

/-- **As long as the exchange is open, no step touches it**, if none supersedes it or replies to
another exchange of its generation. The file is touched by nobody but from outside. -/
theorem Exchanging.move (h : m.Exchanging a) (hm : Move m e m' out) (hsup : e.supersedes = false)
    (holder : ∀ b ∈ m.authorizations, b ≠ a → b.generation = a.generation →
      e.repliesTo b.number = false)
    (hopen : a ∈ m'.authorizations) :
    m'.Exchanging a ∧ ((∀ n, e ≠ .overwrite n) → m'.file = m.file) := by
  cases hm with
  | answered hd => exact ⟨h, fun _ => rfl⟩
  | joined hd hf => cases h.flight.symm.trans hf
  | stuck hd hf => exact ⟨h, fun _ => rfl⟩
  | started hd hf hs => rcases hs with hs | hs <;> cases h.slot.symm.trans hs
  | began => cases hsup
  | forgotten => cases hsup
  | left => exact ⟨⟨h.slot, h.flight, h.generation⟩, fun _ => rfl⟩
  | overwritten =>
    refine ⟨⟨h.slot, h.flight, h.generation⟩, ?_⟩
    intro hno
    exact absurd rfl (hno _)
  | unasked hr ha => exact ⟨h, fun _ => rfl⟩
  | refreshEnds hr he =>
    obtain ⟨hnext, hfile⟩ := h.refreshEnd he
    exact ⟨hnext, fun _ => hfile⟩
  | @exchangeEnds _ _ b _ _ hr hb he =>
    have hne : b ≠ a := by
      rintro rfl
      exact he.not_mem hopen
    have hgen : b.generation ≠ a.generation := by
      intro hg
      simpa [Event.repliesTo] using holder b hb hne hg
    obtain ⟨hnext, hfile⟩ := h.exchangeEnd hgen he
    exact ⟨hnext, fun _ => hfile⟩

/-- Without an event that supersedes, an exchange that is open has been open before. -/
theorem mem_authorizations_of_after {es : List Event} (hsup : ∀ e ∈ es, e.supersedes = false)
    (ha : a ∈ (m.after es).authorizations) : a ∈ m.authorizations := by
  induction es generalizing m with
  | nil => exact ha
  | cons e es ih =>
    obtain ⟨he, hes⟩ := List.forall_mem_cons.mp hsup
    rcases (step_move m e).mem_authorizations_began (ih hes ha) with ha | ⟨verifier, code, rfl⟩
    · exact ha
    · cases he

/-- **As long as the exchange is open, nothing touches it** but what supersedes it or replies to
another exchange of its generation. -/
theorem Exchanging.after (h : m.Exchanging a) {es : List Event}
    (hsup : ∀ e ∈ es, e.supersedes = false)
    (holder : ∀ b ∈ m.authorizations, b ≠ a → b.generation = a.generation →
      ∀ e ∈ es, e.repliesTo b.number = false)
    (hopen : a ∈ (m.after es).authorizations) :
    (m.after es).Exchanging a ∧
      ((∀ e ∈ es, ∀ n, e ≠ .overwrite n) → (m.after es).file = m.file) := by
  induction es generalizing m with
  | nil => exact ⟨h, fun _ => rfl⟩
  | cons e es ih =>
    obtain ⟨he, hes⟩ := List.forall_mem_cons.mp hsup
    have hopen' : a ∈ (m.step e).1.authorizations := mem_authorizations_of_after hes hopen
    obtain ⟨hnext, hfile⟩ := h.move (step_move m e) he
      (fun b hb hne hg => holder b hb hne hg e List.mem_cons_self) hopen'
    have holder' : ∀ b ∈ (m.step e).1.authorizations, b ≠ a → b.generation = a.generation →
        ∀ e ∈ es, e.repliesTo b.number = false := by
      intro b hb hne hg f hf
      have hone : ∀ f ∈ [e], f.supersedes = false := List.forall_mem_singleton.mpr he
      have hb' : b ∈ m.authorizations := mem_authorizations_of_after hone hb
      exact holder b hb' hne hg f (List.mem_cons_of_mem _ hf)
    obtain ⟨hlast, hrest⟩ := ih hnext hes holder' hopen
    refine ⟨hlast, ?_⟩
    intro hno
    obtain ⟨hno, hnos⟩ := List.forall_mem_cons.mp hno
    exact (hrest hnos).trans (hfile hno)

/-! ## What is left of the refresh that was given up -/

/-- Unless a request is made, there is no refresh to join if there was none. -/
theorem Move.flight_eq_none (hm : Move m e m' out) (hf : m.flight = none)
    (hsilent : ∀ number draft, .request number draft ∉ out) : m'.flight = none := by
  cases hm with
  | started hd hf' hs => exact absurd List.mem_cons_self (hsilent _ _)
  | began => rfl
  | forgotten => rfl
  | refreshEnds hr he =>
    cases he with
    | broken hu hf' =>
      obtain ⟨hf', -⟩ | ⟨-, rfl⟩ := hf'
      · cases hf.symm.trans hf'
      · exact hf
    | late hu hw => exact hf
    | granted hu hw => rfl
    | refused hu hw => rfl
  | exchangeEnds hr ha he => cases he <;> exact hf
  | _ => exact hf

/-- Unless a request is made, there is no refresh to join in all of a run if there was none. -/
theorem flight_eq_none_after (hf : m.flight = none) {es : List Event}
    (hsilent : ∀ number draft, .request number draft ∉ m.outputs es) :
    (m.after es).flight = none := by
  induction es generalizing m with
  | nil => exact hf
  | cons e es ih =>
    have hnext : (m.step e).1.flight = none := by
      apply (step_move m e).flight_eq_none hf
      intro number draft hsent
      exact hsilent number draft (List.mem_append_left _ hsent)
    apply ih hnext
    intro number draft hsent
    exact hsilent number draft (List.mem_append_right _ hsent)

/-- Whoever needs a refresh when there is none to join starts one. -/
theorem Move.starts {caller : Caller} {d : Demand} (hm : Move m (.demand caller d) m' out)
    (hf : m.flight = none) (hd : d.answer? m.config m.slot = none) :
    ∃ c, m.slot.credential? = some c ∧ out = [.request m.requests (m.config.refreshDraft c)] ∧
      ⟨caller, m.requests⟩ ∈ m'.waiters := by
  cases hm with
  | answered hd' => cases hd.symm.trans hd'
  | joined hd' hf' => cases hf.symm.trans hf'
  | stuck hd' hf' => cases hf.symm.trans hf'
  | @started _ _ c hd' hf' hs =>
    refine ⟨c, ?_, rfl, by simp⟩
    rcases hs with hs | hs <;> rw [hs] <;> rfl

/-! ## The end of the exchange -/

/-- An exchange that counts and ends with a failure puts back what stood in the slot. -/
theorem Exchanging.fails (h : m.Exchanging a) {caller : Caller} {f : Failure} {u : Ruling}
    {now : Instant} (he : ExchangeEnd m a u now m' out)
    (hfailed : .credential caller (.error f) ∈ out) :
    m'.slot = a.previous.settled ∧ m'.flight = none ∧ m'.file = m.file := by
  cases he with
  | broken hu => simp at hfailed
  | granted hu hg => simp at hfailed
  | grantedLate hu hg => exact absurd h.generation hg
  | refusedLate hu hg => exact absurd ⟨h.generation, h.slot⟩ hg
  | refused hu hg hs => exact ⟨rfl, h.flight, rfl⟩

/-- What a caller learns of the exchange of a code comes of the reply to an open exchange. -/
theorem Move.exchangeEnd_of_told {number : Nat} {reply : Reply} {now : Instant}
    (hm : Move m (.reply number reply now) m' out) {caller : Caller}
    {r : Except Failure Credential} (htold : .credential caller r ∈ out) :
    ∃ a ∈ m.authorizations, a.number = number ∧
      ExchangeEnd m a (.ofExchange m.config now reply) now m' out := by
  cases hm with
  | unasked hr ha => cases htold
  | refreshEnds hr he =>
    have hnone : .credential caller r ∉ out := by
      cases he <;> simp [tellWaiters]
    exact absurd htold hnone
  | exchangeEnds hr ha he => exact ⟨_, ha, rfl, he⟩

/-! ## From the call to its end -/

/-- The exchange that begins when a caller brings back a code. -/
def exchangeOf (m : Manager) (caller : Caller) : Authorization :=
  ⟨m.requests, caller, m.generation + 1, m.slot⟩

variable {caller : Caller} {verifier code : String} {es : List Event}

/-- Without an event that supersedes, the open exchanges are those that were open when the code was
brought back, and its own. -/
theorem mem_authorizations_begun (hsup : ∀ e ∈ es, e.supersedes = false)
    (ha : a ∈ ((m.step (.authorize caller verifier code)).1.after es).authorizations) :
    a ∈ m.authorizations ∨ a = m.exchangeOf caller := by
  have hbegun : a ∈ m.authorizations ++ [m.exchangeOf caller] :=
    mem_authorizations_of_after hsup ha
  simpa using hbegun

/-- While the exchange of a code is open, nothing touches it but what supersedes it or replies to
another exchange of its generation. -/
theorem exchanging_of_mem (hsup : ∀ e ∈ es, e.supersedes = false)
    (holder : ∀ b ∈ m.authorizations, b.generation = m.generation + 1 →
      ∀ e ∈ es, e.repliesTo b.number = false)
    (hopen : m.exchangeOf caller ∈
      ((m.step (.authorize caller verifier code)).1.after es).authorizations) :
    ((m.step (.authorize caller verifier code)).1.after es).Exchanging (m.exchangeOf caller) ∧
      ((∀ e ∈ es, ∀ n, e ≠ .overwrite n) →
        ((m.step (.authorize caller verifier code)).1.after es).file = m.file) := by
  have hbegun : (m.step (.authorize caller verifier code)).1.Exchanging (m.exchangeOf caller) :=
    ⟨rfl, rfl, rfl⟩
  apply hbegun.after hsup
  · intro b hb hne hg
    have hb' : b ∈ m.authorizations ++ [m.exchangeOf caller] := hb
    rcases List.mem_append.mp hb' with hb' | hb'
    · exact holder b hb' hg
    · exact absurd (List.mem_singleton.mp hb') hne
  · exact hopen

/-- What a caller learns of the exchange of a code by the reply to its request comes of the exchange
that the call began. -/
theorem Numbered.exchangeEnd_of_told (h : m.Numbered) (hsup : ∀ e ∈ es, e.supersedes = false)
    {reply : Reply} {now : Instant} {r : Except Failure Credential}
    (htold : .credential caller r ∈
      (((m.step (.authorize caller verifier code)).1.after es).step
        (.reply m.requests reply now)).2) :
    let pending := (m.step (.authorize caller verifier code)).1.after es
    m.exchangeOf caller ∈ pending.authorizations ∧
      ∃ u, ExchangeEnd pending (m.exchangeOf caller) u now
        (pending.step (.reply m.requests reply now)).1
        (pending.step (.reply m.requests reply now)).2 := by
  intro pending
  obtain ⟨b, hb, hn, hend⟩ := (step_move pending _).exchangeEnd_of_told htold
  have hbegun : b = m.exchangeOf caller := by
    rcases mem_authorizations_begun hsup hb with hb | hb
    · exact absurd hn (Nat.ne_of_lt (h.authorization_lt b hb))
    · exact hb
  rw [hbegun] at hb hend
  exact ⟨hb, _, hend⟩

/-- After the events `es` somebody brings back a code (`start`), which ends with a failure
(`finish`); `during` is what happens in the meantime. Nothing is left of it. -/
structure RolledBack (m : Manager) (es : List Event) (start : Event) (during : List Event)
    (finish : Event) : Prop where
  /-- What stood in the slot stands there again; a credential is not being refreshed any more. -/
  slot : (m.after (es ++ start :: during ++ [finish])).slot = (m.after es).slot.settled
  /-- There is no refresh to join. -/
  flight : (m.after (es ++ start :: during ++ [finish])).flight = none
  /-- The file is as it was, unless somebody else wrote to it. -/
  file : (∀ e ∈ during, ∀ n, e ≠ .overwrite n) →
    (m.after (es ++ start :: during ++ [finish])).file = (m.after es).file
  /-- Whoever asked for a bearer in the meantime got none; nothing was sent and nothing changed. -/
  refused : ∀ pre caller d post, during = pre ++ .demand caller d :: post →
    (m.after (es ++ start :: pre)).step (.demand caller d) =
      (m.after (es ++ start :: pre), [.bearer caller (.error .notAuthenticated)])
  /-- Whoever is the next to need a refresh starts one, whose number is that of no open one. -/
  renewed : ∀ later, (∀ number draft, .request number draft ∉
      (m.after (es ++ start :: during ++ [finish])).outputs later) →
    ∀ n, n = (m.after (es ++ start :: during ++ [finish])).after later →
      ∀ caller d, d.answer? n.config n.slot = none →
        ∃ c, n.slot.credential? = some c ∧
          (n.step (.demand caller d)).2 = [.request n.requests (n.config.refreshDraft c)] ∧
          ⟨caller, n.requests⟩ ∈ (n.step (.demand caller d)).1.waiters ∧
          ∀ r ∈ n.refreshes, r.number ≠ n.requests

/-- **A code that is not exchanged leaves nothing behind**, unless somebody has logged out or
brought back another code since. -/
theorem Made.rolled_back (h : m.Made) {es during : List Event} {caller : Caller}
    {verifier code : String} {reply : Reply} {now : Instant} {f : Failure}
    (hsup : ∀ e ∈ during, e.supersedes = false)
    (holder : ∀ b ∈ (m.after es).authorizations,
      b.generation = (m.after es).generation + 1 → ∀ e ∈ during, e.repliesTo b.number = false)
    (hfailed : .credential caller (.error f) ∈
      ((m.after (es ++ .authorize caller verifier code :: during)).step
        (.reply (m.after es).requests reply now)).2) :
    RolledBack m es (.authorize caller verifier code) during
      (.reply (m.after es).requests reply now) := by
  let begun := ((m.after es).step (.authorize caller verifier code)).1
  have hafter : ∀ fs, m.after (es ++ .authorize caller verifier code :: fs) = begun.after fs := by
    intro fs
    rw [after_append]
    rfl
  have hclosing : m.after (es ++ .authorize caller verifier code :: during ++
      [.reply (m.after es).requests reply now]) =
        ((begun.after during).step (.reply (m.after es).requests reply now)).1 := by
    rw [after_append, hafter]
    rfl
  rw [hafter] at hfailed
  obtain ⟨hopen, u, hend⟩ :=
    (h.atRest.numbered.after es).exchangeEnd_of_told hsup hfailed
  obtain ⟨hpending, hfile⟩ := exchanging_of_mem hsup holder hopen
  obtain ⟨hslot, hflight, hkept⟩ := hpending.fails hend hfailed
  constructor
  case slot =>
    rw [hclosing]
    exact hslot
  case flight =>
    rw [hclosing]
    exact hflight
  case file =>
    intro hno
    rw [hclosing]
    exact hkept.trans (hfile hno)
  case refused =>
    rintro pre k d post rfl
    have hpre : ∀ e ∈ pre, e ∈ pre ++ .demand k d :: post := by
      intro e he
      exact List.mem_append_left _ he
    -- The exchange is open at the demand, since it is open afterwards.
    rw [after_append] at hopen
    have hopen' := mem_authorizations_of_after
      (fun e he => hsup e (List.mem_append_right _ he)) hopen
    obtain ⟨hmid, -⟩ := exchanging_of_mem (fun e he => hsup e (hpre e he))
      (fun b hb hg e he => holder b hb hg e (hpre e he)) hopen'
    rw [hafter]
    obtain ⟨hsame, hout⟩ := hmid.refuses (step_move (begun.after pre) (.demand k d))
    exact Prod.ext hsame hout
  case renewed =>
    rintro later hsilent n rfl k d hd
    have hnone := flight_eq_none_after (hclosing ▸ hflight) hsilent
    obtain ⟨c, hc, hout, hwaits⟩ := (step_move _ (.demand k d)).starts hnone hd
    refine ⟨c, hc, hout, hwaits, ?_⟩
    intro r hr
    have hnumbers := h.atRest.numbered.after (es ++ .authorize caller verifier code :: during ++
      [.reply (m.after es).requests reply now] ++ later)
    rw [after_append] at hnumbers
    exact Nat.ne_of_lt (hnumbers.refresh_lt r hr)

/-- A credential is being refreshed. -/
def beforeRefusal : List Event :=
  [.demand 0 (.valid .epoch)]

/-- While a code is exchanged somebody asks for a bearer, and the refresh that has been given up
ends well. -/
def duringRefusal : List Event :=
  [.demand 2 (.valid .epoch),
    .reply 0 (successWith "\x7b\"access_token\":\"b\",\"expires_in\":60\x7d") .epoch]

/-- The issuer refuses the code. -/
def rejection : Response :=
  ⟨⟨400⟩, [], some []⟩

/-- After a code that is refused there is the old credential, and no refresh of it. -/
theorem rolled_back_refusal :
    (∀ e ∈ duringRefusal, e.supersedes = false) ∧
      RolledBack (ofCredential {} .spent) beforeRefusal (.authorize 1 "v" "c") duringRefusal
        (.reply 1 (.answered rejection) .epoch) ∧
      ((ofCredential {} .spent).after (beforeRefusal ++ .authorize 1 "v" "c" :: duringRefusal ++
        [.reply 1 (.answered rejection) .epoch])).slot = .authenticated .spent := by
  let pending := (ofCredential {} .spent).after (beforeRefusal ++ .authorize 1 "v" "c" ::
    duringRefusal)
  have hsup : ∀ e ∈ duringRefusal, e.supersedes = false := by decide
  have holder : ((ofCredential {} .spent).after beforeRefusal).authorizations = [] := rfl
  have hr : pending.refreshes = [] := by decide +kernel
  have ha : pending.authorizations = [⟨1, 1, 2, .refreshing .spent⟩] := by decide +kernel
  have hfailed : .credential 1 (.error (.invalidGrant (statusAndBody rejection))) ∈
      (pending.step (.reply 1 (.answered rejection) .epoch)).2 := by
    simp [step, onReply, hr, ha, onAuthorized, Ruling.ofExchange, Status.isClientError, rejection]
  have h : RolledBack (ofCredential {} .spent) beforeRefusal (.authorize 1 "v" "c") duringRefusal
      (.reply 1 (.answered rejection) .epoch) :=
    (Made.ofCredential {} .spent).rolled_back hsup (by simp [holder]) hfailed
  exact ⟨hsup, h, h.slot⟩

end Manager

end Courier.Auth
