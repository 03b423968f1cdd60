import Courier.Proofs.Auth.InForce
import Courier.Proofs.Json.Laying

/-!
# Tokens that have been used up

A token that credentials are refreshed with may hold for one refresh only: once the issuer has
replied and named another one, it refuses the old one. So a manager should not present it again. It
can come to that all the same. When somebody brings back a code while a credential is refreshed, the
exchange finds the credential in the slot. The reply to the refresh comes too late to count, and if
the code is refused after that, the old credential is put back with its token.

* What a manager could present is in the slot, or is what the exchange that counts has found there
  (`Manager.Keeps`). While the issuer does not name a token, it gets there only from there
  (`Coherent.keeps_of_presents`), and from there it can be presented again within three events
  (`Coherent.presentable`).
* A reply that names another token takes the old one from there exactly if it is taken over, which
  means that the refresh counts and the reply is in range (`RefreshEnd.keeps_iff`).

**`presented_again_iff`** puts the two together, with a bound on the number of generations; without
one, a token is never presented again if there is no copy of it anywhere in the manager
(`Manager.Holds`). `not_never_presented_again` has a run in which a token is presented a second
time.
-/

namespace Courier.Auth

open Courier.Http Courier.Json Courier.Store Courier.Time

/-! ## What a request presents -/

/-- The body of a request for a refresh tells which token it presents. -/
theorem Config.refreshBody_inj {config : Config} {s t : String}
    (h : config.refreshBody s = config.refreshBody t) : s = t := by
  have hvalue := (Value.Numberless.render_inj (.object (by simp [Value.Numberless.string]))
    (.object (by simp [Value.Numberless.string]))).mp h
  simpa using hvalue

/-- A request for a refresh that presents a token. -/
def Output.Presents (config : Config) (token : String) (o : Output) : Prop :=
  ∃ number c, c.refreshToken = token ∧ o = .request number (config.refreshDraft c)

/-- The request for a refresh presents the token of the credential. -/
theorem Output.presents_refreshDraft_iff {config : Config} {token : String} {number : Nat}
    {c : Credential} :
    (Output.request number (config.refreshDraft c)).Presents config token ↔
      c.refreshToken = token := by
  constructor
  · rintro ⟨n, c', rfl, heq⟩
    obtain ⟨-, hdraft⟩ := Output.request.inj heq
    exact Config.refreshBody_inj (congrArg Draft.body hdraft)
  · rintro rfl
    exact ⟨number, c, rfl, rfl⟩

/-- The request for a code presents no token. -/
theorem Output.not_presents_exchangeDraft {config : Config} {token : String} {number : Nat}
    {verifier code : String} :
    ¬ (Output.request number (config.exchangeDraft verifier code)).Presents config token := by
  rintro ⟨n, c, -, heq⟩
  obtain ⟨-, hdraft⟩ := Output.request.inj heq
  simpa [Config.exchangeDraft, Config.refreshDraft] using congrArg Draft.headers hdraft

/-! ## What a reply names -/

/-- A reply with a grant that names a token to refresh with. -/
def Event.Names (token : String) : Event → Prop
  | .reply _ r _ => ∃ g, Grant.ofReply? r = some g ∧ g.refreshToken = some token
  | _ => False

/-- The token of a credential is the one that the grant names, or else the one before. -/
theorem Credential.refreshToken_of_ofGrant {config : Config} {previous : Option Credential}
    {now : Instant} {g : Grant} {c : Credential}
    (h : Credential.ofGrant config previous now g = .ok c) :
    g.refreshToken.or (previous.map (·.refreshToken)) = some c.refreshToken :=
  (Credential.ofGrant_eq_ok_iff.mp h).1

/-- A credential is granted by the grant in a body. -/
theorem Ruling.exists_of_ofBody_eq_granted {refusal incomplete : String → Failure}
    {config : Config} {previous : Option Credential} {now : Instant} {body : Option (List UInt8)}
    {c : Credential}
    (h : Ruling.ofBody refusal incomplete config previous now body = .granted c) :
    ∃ g, (body.bind fun octets => (decodeOctets Grant.decode octets).toOption) = some g ∧
      Credential.ofGrant config previous now g = .ok c := by
  unfold Ruling.ofBody at h
  cases hg : body.bind fun octets => (decodeOctets Grant.decode octets).toOption with
  | none => simp [hg] at h
  | some g =>
    cases hc : Credential.ofGrant config previous now g with
    | ok c' =>
      simp only [hg, hc, Ruling.granted.injEq] at h
      exact ⟨g, rfl, by rw [hc, h]⟩
    | error e => cases e <;> simp [hg, hc] at h

/-- A refresh is granted by the grant in the reply. -/
theorem Ruling.exists_of_ofRefresh_eq_granted {config : Config} {c c' : Credential} {now : Instant}
    {reply : Reply} (h : Ruling.ofRefresh config c now reply = .granted c') :
    ∃ g, Grant.ofReply? reply = some g ∧ Credential.ofGrant config (some c) now g = .ok c' := by
  cases reply with
  | answered r =>
    cases hs : r.status.isSuccess with
    | true =>
      simp only [Ruling.ofRefresh, hs, if_true] at h
      simp only [Grant.ofReply?, hs, if_true]
      exact Ruling.exists_of_ofBody_eq_granted h
    | false => simp [Ruling.ofRefresh, hs] at h
  | timedOut url => simp [Ruling.ofRefresh] at h
  | failed f => simp [Ruling.ofRefresh] at h

/-- An exchange is granted by the grant in the reply. -/
theorem Ruling.exists_of_ofExchange_eq_granted {config : Config} {c : Credential} {now : Instant}
    {reply : Reply} (h : Ruling.ofExchange config now reply = .granted c) :
    ∃ g, Grant.ofReply? reply = some g ∧ Credential.ofGrant config none now g = .ok c := by
  cases reply with
  | answered r =>
    cases hs : r.status.isSuccess with
    | true =>
      simp only [Ruling.ofExchange, hs, Status.isClientError_eq_false hs, if_true,
        Bool.false_eq_true, if_false] at h
      simp only [Grant.ofReply?, hs, if_true]
      exact Ruling.exists_of_ofBody_eq_granted h
    | false =>
      cases hc : r.status.isClientError <;> simp [Ruling.ofExchange, hs, hc] at h
  | timedOut url => simp [Ruling.ofExchange] at h
  | failed f => simp [Ruling.ofExchange] at h

/-- A refresh gives a credential with the token that the reply names, or else with the same one. -/
theorem Ruling.refreshToken_of_ofRefresh {config : Config} {c c' : Credential} {now : Instant}
    {reply : Reply} (h : Ruling.ofRefresh config c now reply = .granted c') :
    ∃ g, Grant.ofReply? reply = some g ∧
      g.refreshToken.or (some c.refreshToken) = some c'.refreshToken := by
  obtain ⟨g, hg, hc⟩ := Ruling.exists_of_ofRefresh_eq_granted h
  exact ⟨g, hg, Credential.refreshToken_of_ofGrant hc⟩

/-- An exchange gives a credential with the token that the reply names. -/
theorem Ruling.names_of_ofExchange {config : Config} {c : Credential} {now : Instant}
    {reply : Reply} (h : Ruling.ofExchange config now reply = .granted c) (number : Nat) :
    (Event.reply number reply now).Names c.refreshToken := by
  obtain ⟨g, hg, hc⟩ := Ruling.exists_of_ofExchange_eq_granted h
  exact ⟨g, hg, by simpa using Credential.refreshToken_of_ofGrant hc⟩

/-- A refresh gives a credential with the token that it presented, unless the reply names the new
one. -/
theorem Ruling.refreshToken_eq_of_not_names {config : Config} {c c' : Credential} {now : Instant}
    {reply : Reply} (h : Ruling.ofRefresh config c now reply = .granted c') {number : Nat}
    (hnames : ¬ (Event.reply number reply now).Names c'.refreshToken) :
    c.refreshToken = c'.refreshToken := by
  obtain ⟨g, hg, htoken⟩ := Ruling.refreshToken_of_ofRefresh h
  cases hnamed : g.refreshToken with
  | none => simpa [hnamed] using htoken
  | some token =>
    rw [hnamed, Option.some_or] at htoken
    exact absurd ⟨g, hg, hnamed.trans htoken⟩ hnames

/-! ## Where a token is kept -/

/-- A credential is at hand in a slot that has been settled. -/
theorem Slot.settled_eq {s : Slot} {c : Credential} (h : s.credential? = some c) :
    s.settled = .authenticated c := by
  cases s <;> simp_all [Slot.credential?, Slot.settled]

namespace Manager

variable {m m' : Manager} {e : Event} {out : List Output} {c : Credential} {token : String}

/-- A token is that of a credential that could come into use: it is in the slot, or the exchange
that counts has found it there. -/
def Keeps (m : Manager) (token : String) : Prop :=
  ∃ c, m.Reaches c ∧ c.refreshToken = token

/-- There is a copy of a credential somewhere: in the slot, or in an open request, whether it counts
or not. -/
def HasCopy (m : Manager) (c : Credential) : Prop :=
  m.slot.credential? = some c ∨ (∃ a ∈ m.authorizations, a.previous.credential? = some c) ∨
    ∃ r ∈ m.refreshes, r.credential = c

/-- There is a copy of a credential with a token. -/
def Holds (m : Manager) (token : String) : Prop :=
  ∃ c, m.HasCopy c ∧ c.refreshToken = token

/-- Only the token of the credential in the slot is presented. -/
theorem Move.exists_of_presents (hm : Move m e m' out) {o : Output} (ho : o ∈ out)
    (hpresents : o.Presents m.config token) :
    ∃ c, m.slot.credential? = some c ∧ c.refreshToken = token := by
  cases hm with
  | @started _ _ c hd hf hs =>
    rw [List.mem_singleton.mp ho] at hpresents
    refine ⟨c, ?_, Output.presents_refreshDraft_iff.mp hpresents⟩
    rcases hs with hs | hs <;> rw [hs] <;> rfl
  | began =>
    rw [List.mem_singleton.mp ho] at hpresents
    exact absurd hpresents Output.not_presents_exchangeDraft
  | refreshEnds hr he =>
    obtain ⟨number, c, -, rfl⟩ := hpresents
    rw [he.told] at ho
    obtain ⟨w, -, hw⟩ := List.mem_map.mp ho
    cases hw
  | exchangeEnds hr ha he =>
    obtain ⟨number, c, -, rfl⟩ := hpresents
    cases he <;> simp at ho
  | _ =>
    obtain ⟨number, c, -, rfl⟩ := hpresents
    simp at ho

/-! ## How long a token stays away -/

/-- What there is a copy of after the end of a refresh there was one of before, unless the refresh
has granted it. -/
theorem RefreshEnd.hasCopy {r : Refresh} {u : Ruling} {now : Instant}
    (he : RefreshEnd m r u now m' out) (hc : m'.HasCopy c) : m.HasCopy c ∨ u = .granted c := by
  have hslot : m'.slot.credential? = some c ∨ m.HasCopy c := by
    rcases hc with hslot | hsaved | ⟨s, hs, hsc⟩
    · exact .inl hslot
    · cases he <;> exact .inr (.inr (.inl hsaved))
    · cases he <;> exact .inr (.inr (.inr ⟨s, (List.mem_filter.mp hs).1, hsc⟩))
  rcases hslot with hslot | hcopy
  · cases he with
    | broken hu hf => exact .inl (.inl hslot)
    | late hu hw => exact .inl (.inl hslot)
    | granted hu hw =>
      cases hslot
      exact .inr hu
    | refused hu hw => cases hslot
  · exact .inl hcopy

/-- What there is a copy of after the end of an exchange there was one of before, unless the
exchange has granted it. -/
theorem ExchangeEnd.hasCopy {a : Authorization} (ha : a ∈ m.authorizations) {u : Ruling}
    {now : Instant} (he : ExchangeEnd m a u now m' out) (hc : m'.HasCopy c) :
    m.HasCopy c ∨ u = .granted c := by
  have hslot : m'.slot.credential? = some c ∨ m.HasCopy c := by
    rcases hc with hslot | ⟨b, hb, hsaved⟩ | hopen
    · exact .inl hslot
    · cases he <;> exact .inr (.inr (.inl ⟨b, (List.mem_filter.mp hb).1, hsaved⟩))
    · cases he <;> exact .inr (.inr (.inr hopen))
  rcases hslot with hslot | hcopy
  · cases he with
    | granted hu hg =>
      cases hslot
      exact .inr hu
    | refused hu hg hs => exact .inl (.inr (.inl ⟨a, ha, by simpa using hslot⟩))
    | _ => exact .inl (.inl hslot)
  · exact .inl hcopy

/-- A step makes no credential with a token that is held nowhere, unless a reply names it. -/
theorem Move.holds (hm : Move m e m' out) (hnames : ¬ e.Names token) (h : m'.Holds token) :
    m.Holds token := by
  obtain ⟨c, hc, rfl⟩ := h
  cases hm with
  | answered hd => exact ⟨c, hc, rfl⟩
  | joined hd hf => exact ⟨c, hc, rfl⟩
  | stuck hd hf => exact ⟨c, hc, rfl⟩
  | @started _ _ c' hd hf hs =>
    have hslot : m.slot.credential? = some c' := by rcases hs with hs | hs <;> rw [hs] <;> rfl
    refine ⟨c, ?_, rfl⟩
    rcases hc with hc | hsaved | ⟨r, hr, hrc⟩
    · exact .inl (hslot.trans hc)
    · exact .inr (.inl hsaved)
    · rcases List.mem_append.mp hr with hr | hr
      · exact .inr (.inr ⟨r, hr, hrc⟩)
      · rw [List.mem_singleton.mp hr] at hrc
        exact .inl (hslot.trans (congrArg some hrc))
  | began =>
    refine ⟨c, ?_, rfl⟩
    rcases hc with hc | ⟨a, ha, hsaved⟩ | hopen
    · cases hc
    · rcases List.mem_append.mp ha with ha | ha
      · exact .inr (.inl ⟨a, ha, hsaved⟩)
      · rw [List.mem_singleton.mp ha] at hsaved
        exact .inl hsaved
    · exact .inr (.inr hopen)
  | forgotten =>
    rcases hc with hc | hrest
    · cases hc
    · exact ⟨c, .inr hrest, rfl⟩
  | left =>
    refine ⟨c, ?_, rfl⟩
    rcases hc with hc | ⟨a, ha, hsaved⟩ | hopen
    · exact .inl hc
    · exact .inr (.inl ⟨a, (List.mem_filter.mp ha).1, hsaved⟩)
    · exact .inr (.inr hopen)
  | overwritten => exact ⟨c, hc, rfl⟩
  | unasked hr ha => exact ⟨c, hc, rfl⟩
  | @refreshEnds _ _ r _ _ hr he =>
    rcases he.hasCopy hc with hc | hu
    · exact ⟨c, hc, rfl⟩
    · exact ⟨r.credential, .inr (.inr ⟨r, hr, rfl⟩), Ruling.refreshToken_eq_of_not_names hu hnames⟩
  | exchangeEnds hr ha he =>
    rcases he.hasCopy ha hc with hc | hu
    · exact ⟨c, hc, rfl⟩
    · exact absurd (Ruling.names_of_ofExchange hu _) hnames

/-- **A token that is held nowhere is not presented until a reply names it**, in runs of any
length. -/
theorem holds_of_presents {es : List Event} (hnames : ∀ e ∈ es, ¬ e.Names token) {o : Output}
    (ho : o ∈ m.outputs es) (hpresents : o.Presents m.config token) : m.Holds token := by
  induction es generalizing m with
  | nil => cases ho
  | cons e es ih =>
    obtain ⟨he, hes⟩ := List.forall_mem_cons.mp hnames
    have hmove := step_move m e
    rcases List.mem_append.mp ho with ho | ho
    · obtain ⟨c, hc, htoken⟩ := hmove.exists_of_presents ho hpresents
      exact ⟨c, .inl hc, htoken⟩
    · rw [← hmove.config_eq] at hpresents
      exact hmove.holds he (ih hes ho hpresents)

/-- A refresh of the current generation is that of the credential in the slot. -/
theorem Coherent.slot_of_current (h : m.Coherent) {r : Refresh} (hr : r ∈ m.refreshes)
    (hg : r.generation = m.generation) : m.slot = .refreshing r.credential := by
  obtain ⟨s, hs, hn, -, hslot⟩ := h.running _ (h.current r hr hg)
  obtain rfl := Stamped.refresh_inj h.numbers hs hr hn
  exact hslot

/-- A step commits to a credential with a token that was kept, unless a reply names it. -/
theorem Move.keeps_of_committed (h : m.Coherent) (hm : Move m e m' out)
    (hsettles : m.settles? e = some (.committed c)) (hnames : ¬ e.Names c.refreshToken) :
    m.Keeps c.refreshToken := by
  cases hm with
  | unasked hr ha => simp [settles?_unasked hr ha] at hsettles
  | refreshEnds hr he =>
    rw [h.numbers.settles?_refresh hr, Option.ite_none_right_eq_some,
      Ruling.settlesRefresh?_eq_committed_iff] at hsettles
    obtain ⟨hg, hu⟩ := hsettles
    refine ⟨_, .inl ?_, Ruling.refreshToken_eq_of_not_names hu hnames⟩
    rw [h.slot_of_current hr hg]
    rfl
  | exchangeEnds hr ha he =>
    rw [h.numbers.settles?_exchange ha, Option.ite_none_right_eq_some,
      Ruling.settlesExchange?_eq_committed_iff] at hsettles
    exact absurd (Ruling.names_of_ofExchange hsettles.2 _) hnames
  | _ => cases hsettles

/-- What a step keeps of a token was kept before, unless a reply names it. -/
theorem Move.keeps (h : m.Coherent) (hm : Move m e m' out)
    (hroom : m'.generation ≠ m.generation → m.generation.toNat + 1 < UInt64.size)
    (hnames : ¬ e.Names token) (hkeeps : m'.Keeps token) : m.Keeps token := by
  obtain ⟨c, hc, rfl⟩ := hkeeps
  rcases hm.reaches h hroom hc with ⟨hc, -⟩ | hcommitted
  · exact ⟨c, hc, rfl⟩
  · exact hm.keeps_of_committed h hcommitted hnames

/-- **A token that is not kept is not presented until a reply names it**, in runs with fewer than
2⁶⁴ generations. -/
theorem Coherent.keeps_of_presents (h : m.Coherent) {es : List Event}
    (hroom : m.generation.toNat + m.bumps es < UInt64.size) (hnames : ∀ e ∈ es, ¬ e.Names token)
    {o : Output} (ho : o ∈ m.outputs es) (hpresents : o.Presents m.config token) :
    m.Keeps token := by
  induction es generalizing m with
  | nil => cases ho
  | cons e es ih =>
    obtain ⟨he, hes⟩ := List.forall_mem_cons.mp hnames
    have hmove := step_move m e
    rcases List.mem_append.mp ho with ho | ho
    · obtain ⟨c, hc, htoken⟩ := hmove.exists_of_presents ho hpresents
      exact ⟨c, .inl hc, htoken⟩
    · rw [← hmove.config_eq] at hpresents
      exact hmove.keeps h (room_step hroom).1 he
        (ih (h.step hroom) (room_step hroom).2 hes ho hpresents)

/-! ## How a token comes back -/

/-- A run begins no more generations than it has events. -/
theorem bumps_le_length (m : Manager) (es : List Event) : m.bumps es ≤ es.length := by
  induction es generalizing m with
  | nil => exact Nat.le_refl 0
  | cons e es ih =>
    have hrest := ih (m.step e).1
    simp only [bumps, List.length_cons]
    split <;> omega

/-- The issuer refuses a code. -/
def refusal : Reply :=
  .answered ⟨⟨400⟩, [], none⟩

/-- A refused code is refused. -/
theorem Ruling.exists_ofExchange_refusal (config : Config) (now : Instant) :
    ∃ f, Ruling.ofExchange config now refusal = .refused f :=
  ⟨_, rfl⟩

/-- A refusal names no token. -/
theorem not_names_refusal (number : Nat) (now : Instant) :
    ¬ (Event.reply number refusal now).Names token := by
  rintro ⟨g, hg, -⟩
  cases hg

/-- In at most `n` events none of which names a token, the token is presented. -/
def PresentsWithin (m : Manager) (n : Nat) (token : String) : Prop :=
  ∃ es, es.length ≤ n ∧ (∀ e ∈ es, ¬ e.Names token) ∧
    ∃ o ∈ m.outputs es, o.Presents m.config token

/-- What comes of a step comes within one more event. -/
theorem PresentsWithin.cons {n : Nat} (hnames : ¬ e.Names token)
    (h : (m.step e).1.PresentsWithin n token) : m.PresentsWithin (n + 1) token := by
  obtain ⟨es, hlength, hes, o, ho, hpresents⟩ := h
  refine ⟨e :: es, Nat.succ_le_succ hlength, List.forall_mem_cons.mpr ⟨hnames, hes⟩, o, ?_, ?_⟩
  · exact List.mem_append_right _ ho
  · rw [← (step_move m e).config_eq]
    exact hpresents

/-- Where there is nothing to join, a demand that the credential does not meet makes a manager
present its token. -/
theorem Move.out_of_unmet {caller : Caller} {d : Demand} (hm : Move m (.demand caller d) m' out)
    (hs : m.slot = .authenticated c) (hf : m.flight = none)
    (hd : d.metBy m.config c = false) : out = [.request m.requests (m.config.refreshDraft c)] := by
  have hanswer : d.answer? m.config m.slot = none := by simp [hs, Demand.answer?, hd]
  cases hm with
  | answered hd' => cases hanswer.symm.trans hd'
  | joined hd' hf' => cases hf.symm.trans hf'
  | stuck hd' hf' => cases hf.symm.trans hf'
  | started hd' hf' hs' =>
    rcases hs' with hs' | hs' <;> cases hs.symm.trans hs'
    rfl

/-- A token of a credential that is at hand can be presented at once: the backend need only refuse
the bearer. -/
theorem Coherent.presentsWithin_one (h : m.Coherent) (hs : m.slot = .authenticated c) :
    m.PresentsWithin 1 c.refreshToken := by
  refine ⟨[.demand 0 (.other c.bearer)], Nat.le_refl 1, by simp [Event.Names], ?_⟩
  have hout := (step_move m (.demand 0 (.other c.bearer))).out_of_unmet hs
    (h.flight_eq_none (by rw [hs]; rfl)) (by simp [Demand.metBy, Credential.bearer])
  refine ⟨.request m.requests (m.config.refreshDraft c), ?_,
    Output.presents_refreshDraft_iff.mpr rfl⟩
  rw [outputs_cons, hout]
  exact List.mem_append_left _ (.head _)

/-- A refusal of the exchange that counts puts back the credential that was in the slot. -/
theorem Move.put_back (h : m.Coherent) {a : Authorization} {now : Instant}
    (hm : Move m (.reply a.number refusal now) m' out) (ha : a ∈ m.authorizations)
    (hg : a.generation = m.generation) (hc : a.previous.credential? = some c) :
    m'.slot = .authenticated c ∧ m'.Coherent := by
  have hend := hm.exchangeEnd h.numbers ha rfl
  refine ⟨?_, h.exchangeEnd ha hend⟩
  obtain ⟨f, hf⟩ := Ruling.exists_ofExchange_refusal m.config now
  rw [hf] at hend
  cases hend with
  | refused hu hg' hs => exact Slot.settled_eq hc
  | refusedLate hu hlate => exact absurd ⟨hg.symm, h.exchanging a ha hg⟩ hlate
  | broken hu => cases hu
  | grantedLate hu hg' => cases hu
  | granted hu hg' => cases hu

/-- A token that the exchange that counts has found can be presented once the code is refused. -/
theorem Coherent.presentsWithin_two (h : m.Coherent) {a : Authorization}
    (ha : a ∈ m.authorizations) (hg : a.generation = m.generation)
    (hc : a.previous.credential? = some c) : m.PresentsWithin 2 c.refreshToken := by
  obtain ⟨hslot, hcoherent⟩ :=
    (step_move m (.reply a.number refusal .epoch)).put_back h ha hg hc
  exact .cons (not_names_refusal _ _) (hcoherent.presentsWithin_one hslot)

/-- A token of a credential in the slot can be presented once somebody brings back a code and it is
refused, even if the credential is being refreshed. -/
theorem Coherent.presentsWithin_three (h : m.Coherent)
    (hroom : m.generation.toNat + 1 < UInt64.size) (hc : m.slot.credential? = some c) :
    m.PresentsWithin 3 c.refreshToken := by
  have hmove := step_move m (.authorize 0 "" "")
  have hsent : .request m.requests (m.config.exchangeDraft "" "") ∈
      (m.step (.authorize 0 "" "")).2 := .head _
  obtain ⟨-, ha⟩ := hmove.sends_exchange hsent
  have hcoherent := h.move hmove fun _ => hroom
  exact .cons (by simp [Event.Names]) (hcoherent.presentsWithin_two ha rfl hc)

/-- **A token that is kept can be presented again** within three events. -/
theorem Coherent.presentable (h : m.Coherent) (hroom : m.generation.toNat + 1 < UInt64.size)
    (hkeeps : m.Keeps token) : m.PresentsWithin 3 token := by
  obtain ⟨c, hc | ⟨a, ha, hg, hsaved⟩, rfl⟩ := hkeeps
  · exact h.presentsWithin_three hroom hc
  · obtain ⟨es, hlength, hes⟩ := h.presentsWithin_two ha hg hsaved
    exact ⟨es, Nat.le_succ_of_le hlength, hes⟩

/-! ## What a reply takes away -/

/-- A reply that names another token takes the one that was presented from where it is kept exactly
if it is taken over: the refresh counts, and the reply is in range. -/
theorem RefreshEnd.keeps_iff (h : m.Coherent) {r : Refresh} (hr : r ∈ m.refreshes) {reply : Reply}
    {now : Instant} (he : RefreshEnd m r (.ofRefresh m.config r.credential now reply) now m' out)
    {g : Grant} (hg : Grant.ofReply? reply = some g) {other : String}
    (hnamed : g.refreshToken = some other) (hne : other ≠ r.credential.refreshToken) :
    m'.Keeps r.credential.refreshToken ↔
      m.Keeps r.credential.refreshToken ∧
        ¬ (m.awaits r = true ∧ (Event.reply r.number reply now).InRange) := by
  rw [Event.inRange_reply_iff m.config r.credential]
  cases he with
  | broken hu hf => simp [hu]; rfl
  | late hu hw => simp [hw]; rfl
  | granted hu hw =>
    refine iff_of_false ?_ ?_
    · rintro ⟨c, hc, htoken⟩
      cases hc.slot (h.ne_of_refresh hr (generation_eq_of_awaits hw)).2
      obtain ⟨g', hg', hor⟩ := Ruling.refreshToken_of_ofRefresh hu
      cases hg.symm.trans hg'
      rw [hnamed, Option.some_or, htoken] at hor
      exact hne (Option.some.inj hor)
    · rintro ⟨-, hnot⟩
      exact hnot ⟨hw, by simp [hu]⟩
  | refused hu hw =>
    refine iff_of_false ?_ ?_
    · rintro ⟨c, hc, -⟩
      exact hc.false (h.ne_of_refresh hr (generation_eq_of_awaits hw)).2 rfl
    · rintro ⟨-, hnot⟩
      exact hnot ⟨hw, by simp [hu]⟩

/-! ## Whether a token is presented again -/

/-- After the events `es` a token can still be presented, although no further reply names it. -/
def PresentedAgain (m : Manager) (es : List Event) (token : String) : Prop :=
  ∃ fs, m.bumps (es ++ fs) < UInt64.size ∧ (∀ f ∈ fs, ¬ f.Names token) ∧
    ∃ o ∈ (m.after es).outputs fs, o.Presents m.config token

/-- **A token can be presented again if and only if it is kept.** -/
theorem Made.presentedAgain_iff_keeps (h : m.Made) {es : List Event}
    (hroom : m.bumps es + 3 < UInt64.size) :
    m.PresentedAgain es token ↔ (m.after es).Keeps token := by
  constructor
  · rintro ⟨fs, hbumps, hfs, o, ho, hpresents⟩
    rw [← config_after m es] at hpresents
    exact (h.coherent (by omega)).keeps_of_presents (h.room hbumps) hfs ho hpresents
  · intro hkeeps
    have hgeneration : (m.after es).generation.toNat = m.bumps es := by
      rw [toNat_generation_after] <;> simp [h.atRest.generation]
      omega
    obtain ⟨fs, hlength, hfs, o, ho, hpresents⟩ :=
      (h.coherent (by omega)).presentable (by omega) hkeeps
    rw [config_after] at hpresents
    refine ⟨fs, ?_, hfs, o, ho, hpresents⟩
    have hle := bumps_le_length (m.after es) fs
    rw [bumps_append]
    omega

/-- **A token that has been used up is presented again if and only if it is kept and the reply is
not taken over.** The token is that of an open refresh, and the reply to the refresh names another
one. With room for four more generations, the old one can be presented again exactly if it is in the
slot, or is what the exchange that counts has found there, when the reply comes, and if then the
refresh does not count or the reply is out of range. In runs of any length, a token of which no copy
is left after the reply is not presented until a reply names it. -/
theorem Made.presented_again_iff (h : m.Made) {es : List Event} {r : Refresh}
    (hr : r ∈ (m.after es).refreshes) {reply : Reply} {now : Instant} {g : Grant}
    (hg : Grant.ofReply? reply = some g) {other : String} (hnamed : g.refreshToken = some other)
    (hne : other ≠ r.credential.refreshToken) :
    (m.bumps es + 4 < UInt64.size →
      (m.PresentedAgain (es ++ [.reply r.number reply now]) r.credential.refreshToken ↔
        (m.after es).Keeps r.credential.refreshToken ∧
          ¬ ((m.after es).awaits r = true ∧ (Event.reply r.number reply now).InRange))) ∧
    (¬ (m.after (es ++ [.reply r.number reply now])).Holds r.credential.refreshToken →
      ∀ fs, (∀ f ∈ fs, ¬ f.Names r.credential.refreshToken) →
        ∀ o ∈ (m.after (es ++ [.reply r.number reply now])).outputs fs,
          ¬ o.Presents m.config r.credential.refreshToken) := by
  constructor
  · intro hroom
    have hcoherent : (m.after es).Coherent := h.coherent (by omega)
    have hend := (step_move (m.after es) (.reply r.number reply now)).refreshEnd
      hcoherent.numbers hr rfl
    have hroom' : m.bumps (es ++ [.reply r.number reply now]) + 3 < UInt64.size := by
      have hle := bumps_le_length (m.after es) [.reply r.number reply now]
      rw [List.length_singleton] at hle
      rw [bumps_append]
      omega
    rw [h.presentedAgain_iff_keeps hroom', after_append]
    exact hend.keeps_iff hcoherent hr hg hnamed hne
  · intro hnone fs hfs o ho hpresents
    rw [← config_after m (es ++ [.reply r.number reply now])] at hpresents
    exact hnone (holds_of_presents hfs ho hpresents)

/-- While a credential is refreshed, somebody brings back a code. -/
def crossing : List Event :=
  [.demand 0 (.valid .epoch), .authorize 1 "v" "c"]

/-- The refresh of the spent credential. -/
def crossed : Refresh :=
  ⟨0, 1, .spent⟩

/-- Tokens that are granted, with one to refresh them with that is not that of the spent
credential. -/
def renewal : Grant :=
  ⟨none, "b", some "s", some 60⟩

/-- The reply with these tokens. -/
def renewed : Reply :=
  successWith
    "\x7b\"access_token\":\"b\",\"refresh_token\":\"s\",\"expires_in\":60\x7d"

/-- The token that the refresh has used up can be presented again when the code is refused. -/
theorem crossed_presented_again :
    (ofCredential {} .spent).Made ∧ crossed ∈ ((ofCredential {} .spent).after crossing).refreshes ∧
      Grant.ofReply? renewed = some renewal ∧ renewal.refreshToken = some "s" ∧
      "s" ≠ crossed.credential.refreshToken ∧
      (ofCredential {} .spent).bumps crossing + 4 < UInt64.size ∧
      (ofCredential {} .spent).PresentedAgain (crossing ++ [.reply 0 renewed .epoch])
        crossed.credential.refreshToken := by
  have hmade := Made.ofCredential {} .spent
  have hr : crossed ∈ ((ofCredential {} .spent).after crossing).refreshes := by decide +kernel
  have hg : Grant.ofReply? renewed = some renewal := by decide +kernel
  have hne : "s" ≠ crossed.credential.refreshToken := by decide
  have hroom : (ofCredential {} .spent).bumps crossing + 4 < UInt64.size := by decide +kernel
  have hiff : (ofCredential {} .spent).PresentedAgain (crossing ++ [.reply 0 renewed .epoch])
      crossed.credential.refreshToken ↔ _ := (hmade.presented_again_iff hr hg rfl hne).1 hroom
  refine ⟨hmade, hr, hg, rfl, hne, hroom, hiff.mpr ⟨?_, ?_⟩⟩
  · have ha : (⟨1, 1, 2, .refreshing .spent⟩ : Authorization) ∈
        ((ofCredential {} .spent).after crossing).authorizations := by decide +kernel
    have hgeneration : ((ofCredential {} .spent).after crossing).generation = 2 := by decide +kernel
    exact ⟨.spent, .inr ⟨_, ha, hgeneration.symm, rfl⟩, rfl⟩
  · have hawaits : ((ofCredential {} .spent).after crossing).awaits crossed = false := by
      decide +kernel
    simp [hawaits]

/-- **A token that has been used up can be presented again.** -/
theorem not_never_presented_again :
    ¬ ∀ m, Made m → ∀ es, ∀ r ∈ (m.after es).refreshes, ∀ reply now g other,
      Grant.ofReply? reply = some g → g.refreshToken = some other →
      other ≠ r.credential.refreshToken → ∀ fs, (∀ f ∈ fs, ¬ f.Names r.credential.refreshToken) →
        ∀ o ∈ (m.after (es ++ [.reply r.number reply now])).outputs fs,
          ¬ o.Presents m.config r.credential.refreshToken := by
  intro h
  let m := (ofCredential {} .spent).after (crossing ++ [.reply 0 renewed .epoch])
  have hslot : (m.step (.reply 1 refusal .epoch)).1.slot = .authenticated .spent := by
    decide +kernel
  have hflight : (m.step (.reply 1 refusal .epoch)).1.flight = none := by decide +kernel
  have hout := (step_move _ (.demand 2 (.valid .epoch))).out_of_unmet hslot hflight
    (by decide +kernel)
  rw [(step_move m (.reply 1 refusal .epoch)).config_eq, config_after] at hout
  have hnames : ∀ f ∈ [Event.reply 1 refusal .epoch, .demand 2 (.valid .epoch)],
      ¬ f.Names crossed.credential.refreshToken := by
    rw [List.forall_mem_cons, List.forall_mem_singleton]
    exact ⟨not_names_refusal _ _, id⟩
  have ho : .request (m.step (.reply 1 refusal .epoch)).1.requests
      ((ofCredential {} .spent).config.refreshDraft .spent) ∈
        m.outputs [.reply 1 refusal .epoch, .demand 2 (.valid .epoch)] := by
    rw [outputs_cons, outputs_cons, hout]
    exact List.mem_append_right _ (List.mem_append_left _ (.head _))
  exact h _ (.ofCredential {} .spent) crossing crossed (by decide +kernel) renewed .epoch renewal
    "s" (by decide +kernel) rfl (by decide) _ hnames _ ho ⟨_, .spent, rfl, rfl⟩

end Manager

end Courier.Auth
