import Courier.Proofs.Auth.Reuse
import Courier.Proofs.Results

/-!
# What refreshes carry over

A credential is refreshed again and again, and each time the issuer may leave out the token to
refresh with or the token that tells who it is all about. `Credential.renewed` is the credential
that a chain of renewals makes of a first one, and `MadeOf` says what it is made of:

* the access token and the expiry of the last renewal;
* the token to refresh with of the last renewal that brings one, or else the first one;
* the identity of the last renewal that brings an identity token, or else the first one. An identity
  token that cannot be read takes away what was known: it counts as one that tells nothing, not as
  one that was left out.

So a part of the identity, such as the account that requests are counted to, is that of the last
identity token that could be read exactly if no later token, which could not be read, has taken it
away (`MadeOf.part_iff`).

`m.descent es` tells from a run what the credential in force has come from: the credential that the
manager was made with, or that a code has brought, and the renewals since (`Made.leadsTo`).
**`Made.refreshes_carry_over`** puts these together, and `not_always_carried` is a run in which the
account is lost.
-/

namespace Courier.Auth

open Courier.Http Courier.Time

/-! ## Chains of renewals -/

/-- A refresh that the issuer has granted. -/
structure Renewal where
  /-- When it was granted. -/
  now : Instant
  /-- The grant. -/
  grant : Grant
  deriving DecidableEq

/-- The identity that a grant tells by a token that can be read. -/
def Grant.identity? (g : Grant) : Option Identity :=
  g.idToken.bind fun token => (identity token).toOption

/-- The credential that renewals make of another one, if they do. -/
def Credential.renewed (config : Config) (first : Credential) (rs : List Renewal) :
    Except GrantError Credential :=
  rs.foldlM (fun c r => Credential.ofGrant config (some c) r.now r.grant) first

/-- What the last renewal brings that brings anything of a kind. -/
def lastOf? {α : Type} (f : Renewal → Option α) (rs : List Renewal) : Option α :=
  rs.reverse.findSome? f

/-- The identity after renewals, if those whose identity token cannot be read left it alone. -/
def identityKept (first : Credential) (rs : List Renewal) : Identity :=
  (lastOf? (·.grant.identity?) rs).getD first.identity

/-- The last identity token that was brought cannot be read. -/
def Garbled (rs : List Renewal) : Prop :=
  ∃ token, lastOf? (·.grant.idToken) rs = some token ∧ (identity token).toOption = none

/-- What a credential is made of that renewals have made of the credential `first`. -/
structure MadeOf (first : Credential) (rs : List Renewal) (c : Credential) : Prop where
  /-- The access token is that of the last renewal. -/
  accessToken : c.accessToken = (rs.getLast?.map (·.grant.accessToken)).getD first.accessToken
  /-- The expiry is that of the last renewal. -/
  expiresAt : some c.expiresAt =
    (rs.getLast?.map fun r => r.grant.expiresAt? r.now).getD (some first.expiresAt)
  /-- The token to refresh with is the last one that was brought. -/
  refreshToken : c.refreshToken = (lastOf? (·.grant.refreshToken) rs).getD first.refreshToken
  /-- The identity is that of the last token that was brought, which may tell nothing. -/
  identity : c.identity = ((lastOf? (·.grant.idToken) rs).map fun token =>
    (Auth.identity token).toOption.getD {}).getD first.identity

section lastOf

variable {α β : Type} {f : Renewal → Option α} {rs : List Renewal} {r : Renewal}

/-- What a renewal brings is the last unless a later one brings something. -/
theorem lastOf?_cons : lastOf? f (r :: rs) = (lastOf? f rs).or (f r) := by
  rw [lastOf?, List.reverse_cons, List.findSome?_append, List.findSome?_singleton]
  rfl

/-- Where nothing is brought, nothing can be made of it. -/
theorem lastOf?_bind_of_eq_none (g : α → Option β) (h : lastOf? f rs = none) :
    lastOf? (fun r => (f r).bind g) rs = none := by
  unfold lastOf? at h ⊢
  rw [List.findSome?_eq_none_iff] at h ⊢
  intro r hr
  rw [h r hr]
  rfl

/-- What can be made of the last that is brought is the last that can be made. -/
theorem lastOf?_bind_of_eq_some {g : α → Option β} {x : α} {y : β} (h : lastOf? f rs = some x)
    (hy : g x = some y) : lastOf? (fun r => (f r).bind g) rs = some y := by
  induction rs with
  | nil => cases h
  | cons r rs ih =>
    rw [lastOf?_cons] at h ⊢
    cases hrest : lastOf? f rs with
    | some z =>
      rw [hrest] at h
      obtain rfl : z = x := Option.some.inj h
      rw [ih hrest]
      rfl
    | none =>
      rw [hrest, Option.none_or] at h
      rw [lastOf?_bind_of_eq_none g hrest, h, Option.none_or]
      exact hy

end lastOf

variable {config : Config} {first next c : Credential} {rs : List Renewal} {r : Renewal}

/-- A credential that has not been renewed is what it was. -/
theorem MadeOf.nil : MadeOf c [] c where
  accessToken := rfl
  expiresAt := rfl
  refreshToken := rfl
  identity := rfl

/-- What a renewal has made of a credential is carried over by those that follow it. -/
theorem MadeOf.cons (h : MadeOf next rs c)
    (hnext : Credential.ofGrant config (some first) r.now r.grant = .ok next) :
    MadeOf first (r :: rs) c := by
  obtain ⟨hrefresh, hexpires, haccess, -, -, hidentity⟩ := Credential.ofGrant_eq_ok_iff.mp hnext
  constructor
  case accessToken =>
    rw [h.accessToken, haccess, List.getLast?_cons]
    cases rs.getLast? <;> rfl
  case expiresAt =>
    rw [h.expiresAt, ← hexpires, List.getLast?_cons]
    cases rs.getLast? <;> rfl
  case refreshToken =>
    rw [h.refreshToken, lastOf?_cons]
    cases lastOf? (·.grant.refreshToken) rs with
    | some token => rfl
    | none =>
      cases htoken : r.grant.refreshToken <;> rw [htoken] at hrefresh <;>
        exact (Option.some.inj hrefresh).symm
  case identity =>
    rw [h.identity, hidentity, Grant.identityAfter, lastOf?_cons]
    cases lastOf? (·.grant.idToken) rs with
    | some token => rfl
    | none => cases r.grant.idToken <;> rfl

/-- One more renewal is made of what the others have made. -/
theorem Credential.renewed_concat :
    Credential.renewed config first (rs ++ [r]) =
      Credential.renewed config first rs >>=
        fun c => Credential.ofGrant config (some c) r.now r.grant := by
  simp [renewed]

/-- **What renewals have made of a credential carries over what the issuer has left out.** -/
theorem madeOf_of_renewed (h : Credential.renewed config first rs = .ok c) :
    MadeOf first rs c := by
  induction rs generalizing first with
  | nil =>
    obtain rfl := Except.ok.inj h
    exact .nil
  | cons r rs ih =>
    rw [Credential.renewed, List.foldlM_cons] at h
    obtain ⟨next, hnext, hrest⟩ := bind_eq_ok_iff.mp h
    exact (ih hrest).cons hnext

/-- **A part of the identity is that of the last token that could be read**, unless a later one that
could not be read has taken it away. -/
theorem MadeOf.part_iff (h : MadeOf first rs c) {γ : Type} (part : Identity → γ) :
    part c.identity = part (identityKept first rs) ↔
      (Garbled rs → part (identityKept first rs) = part {}) := by
  have hkept : identityKept first rs =
      (lastOf? (fun r => r.grant.idToken.bind fun token => (Auth.identity token).toOption) rs).getD
        first.identity := rfl
  rw [h.identity, Garbled]
  cases htoken : lastOf? (·.grant.idToken) rs with
  | none =>
    rw [hkept, lastOf?_bind_of_eq_none _ htoken]
    simp
  | some token =>
    cases hread : (Auth.identity token).toOption with
    | some i =>
      rw [hkept, lastOf?_bind_of_eq_some htoken hread]
      simp [hread]
    | none => simp [hread, eq_comm]

/-- What becomes of a credential in a chain of renewals. -/
structure Inherits (first : Credential) (rs : List Renewal) (c : Credential) : Prop where
  /-- The parts that it is made of. -/
  madeOf : MadeOf first rs c
  /-- When its identity is that of the last token that could be read. -/
  identity_iff : c.identity = identityKept first rs ↔ (Garbled rs → identityKept first rs = {})
  /-- When its account, which requests are counted to, is that of the last token that could be
  read. -/
  account_iff : c.bearer.accountId = (identityKept first rs).accountId ↔
    (Garbled rs → (identityKept first rs).accountId = none)

/-! ## Where the credential in force comes from -/

/-- A credential and the renewals that it has gone through since. -/
structure Descent where
  /-- The credential that was there first. -/
  first : Credential
  /-- What has been made of it since. -/
  renewals : List Renewal
  deriving DecidableEq

namespace Manager

/-- The renewal that an event commits to, if it is the reply to a refresh that counts. -/
def renewal? (m : Manager) : Event → Option Renewal
  | .reply number reply now =>
    if m.refreshes.any fun r => r.number == number && r.generation == m.generation then
      (Grant.ofReply? reply).map fun g => ⟨now, g⟩
    else none
  | _ => none

/-- What the credential in force comes from after an event. -/
def descentAfter (m : Manager) (d : Option Descent) (e : Event) : Option Descent :=
  match m.settles? e with
  | none => d
  | some .givenUp => none
  | some (.committed c) =>
    match m.renewal? e with
    | some r => d.map fun d => { d with renewals := d.renewals ++ [r] }
    | none => some ⟨c, []⟩

/-- What the credential in force comes from after some events. -/
def descentFrom (d : Option Descent) : Manager → List Event → Option Descent
  | _, [] => d
  | m, e :: es => descentFrom (m.descentAfter d e) (m.step e).1 es

/-- What the credential in force comes from in a run. -/
def descent (m : Manager) (es : List Event) : Option Descent :=
  descentFrom (m.slot.credential?.map fun c => ⟨c, []⟩) m es

variable {m m' : Manager} {e : Event} {out : List Output} {held : Option Credential}
  {d : Option Descent}

/-- A credential is the one that a descent leads to. -/
def LeadsTo (config : Config) (d : Option Descent) (held : Option Credential) : Prop :=
  held = d.bind fun d => (Credential.renewed config d.first d.renewals).toOption

/-- A credential that has not been renewed is where its descent leads. -/
theorem leadsTo_self (config : Config) (c : Option Credential) :
    LeadsTo config (c.map fun c => ⟨c, []⟩) c := by
  cases c <;> rfl

/-- A descent leads to what the renewals in it make. -/
theorem leadsTo_some_iff {config : Config} {c : Credential} :
    LeadsTo config d (some c) ↔
      ∃ d', d = some d' ∧ Credential.renewed config d'.first d'.renewals = .ok c := by
  simp only [LeadsTo, eq_comm (a := some c), Option.bind_eq_some_iff, toOption_eq_some_iff]

/-- Where a renewal that is granted leads. -/
theorem LeadsTo.renew {config : Config} {c next : Credential} {r : Renewal}
    (h : LeadsTo config d (some c))
    (hnext : Credential.ofGrant config (some c) r.now r.grant = .ok next) :
    LeadsTo config (d.map fun d => { d with renewals := d.renewals ++ [r] }) (some next) := by
  obtain ⟨d, rfl, hmade⟩ := leadsTo_some_iff.mp h
  refine leadsTo_some_iff.mpr ⟨_, rfl, ?_⟩
  rw [Credential.renewed_concat, hmade]
  exact hnext

/-- The reply to a refresh that counts commits to the renewal that it grants. -/
theorem renewal?_refresh {r : Refresh} (hr : r ∈ m.refreshes) (hg : r.generation = m.generation)
    (reply : Reply) (now : Instant) :
    m.renewal? (.reply r.number reply now) = (Grant.ofReply? reply).map fun g => ⟨now, g⟩ := by
  apply if_pos
  rw [List.any_eq_true]
  exact ⟨r, hr, by simp [hg]⟩

/-- The reply to anything else commits to no renewal. -/
theorem renewal?_of_ne {number : Nat} (h : ∀ r ∈ m.refreshes, r.number ≠ number) (reply : Reply)
    (now : Instant) : m.renewal? (.reply number reply now) = none := by
  apply if_neg
  rw [List.any_eq_true]
  rintro ⟨r, hr, hnumber⟩
  rw [Bool.and_eq_true, beq_iff_eq] at hnumber
  exact h r hr hnumber.1

/-- **After a step the credential in force is still the one that its descent leads to.** -/
theorem LeadsTo.move (h : LeadsTo m.config d held) (hc : m.Coherent) (hf : m.Fresh held)
    (hm : Move m e m' out) :
    LeadsTo m.config (m.descentAfter d e) ((m.settles? e).elim held Settlement.credential?) := by
  unfold descentAfter
  cases hs : m.settles? e with
  | none => exact h
  | some s =>
    cases s with
    | givenUp => rfl
    | committed c =>
      -- Only replies commit: one to a refresh makes a renewal of the credential that was in force,
      -- and one to the exchange of a code begins anew.
      cases hm with
      | unasked hr ha => simp [settles?_unasked hr ha] at hs
      | @refreshEnds reply now r _ _ hr he =>
        rw [hc.numbers.settles?_refresh hr, Option.ite_none_right_eq_some,
          Ruling.settlesRefresh?_eq_committed_iff] at hs
        obtain ⟨hg, hgranted⟩ := hs
        obtain ⟨g, hreply, hmade⟩ := Ruling.exists_of_ofRefresh_eq_granted hgranted
        obtain ⟨s, hs, hnumber, -, hslot⟩ := hc.running _ (hc.current r hr hg)
        obtain rfl := hc.numbers.refresh_inj hs hr hnumber
        have hheld : held = some s.credential := hf.slot s.credential (by rw [hslot]; rfl)
        rw [renewal?_refresh hr hg, hreply]
        rw [hheld] at h
        exact h.renew (r := ⟨now, g⟩) hmade
      | exchangeEnds hr ha he =>
        rw [renewal?_of_ne hr]
        rfl
      | _ => simp [settles?] at hs

/-- After a run the credential in force is the one that its descent leads to. -/
theorem LeadsTo.after (h : LeadsTo m.config d held) (hc : m.Coherent) (hf : m.Fresh held)
    {es : List Event} (hroom : m.generation.toNat + m.bumps es < UInt64.size) :
    LeadsTo m.config (descentFrom d m es)
      ((m.latest? es).elim held Settlement.credential?) := by
  induction es generalizing m held d with
  | nil => exact h
  | cons e es ih =>
    have hmove := step_move m e
    have hnext := h.move hc hf hmove
    have hfresh := hf.move hc hmove (room_step hroom).1
    have hconfig : (m.step e).1.config = m.config := hmove.config_eq
    rw [← hconfig] at hnext ⊢
    have hrest := ih hnext (hc.step hroom) hfresh (room_step hroom).2
    rw [Manager.latest?, descentFrom]
    cases hs : (m.step e).1.latest? es with
    | none => simpa [hs] using hrest
    | some s => simpa [hs] using hrest

/-- In every run the credential in force is the one that its descent leads to. -/
theorem Made.leadsTo (h : m.Made) {es : List Event} (hroom : m.bumps es < UInt64.size) :
    LeadsTo m.config (m.descent es) (m.inForce es) := by
  have hself := leadsTo_self m.config m.slot.credential?
  apply hself.after h.atRest.coherent
  case hf =>
    intro c hc
    exact hc.slot (by simp [h.atRest.authorizations])
  case hroom => simpa [h.atRest.generation] using hroom

/-- The credential in force has come about by renewals. -/
theorem Made.exists_descent (h : m.Made) {es : List Event} (hroom : m.bumps es < UInt64.size)
    {c : Credential} (hc : m.inForce es = some c) :
    ∃ d, m.descent es = some d ∧ Credential.renewed m.config d.first d.renewals = .ok c := by
  have hleads := h.leadsTo hroom
  rw [hc] at hleads
  exact leadsTo_some_iff.mp hleads

/-- A bearer that is handed out has the account of the credential in force, or is an API key. -/
theorem Made.account_eq (h : m.Made) {es : List Event} {e : Event}
    (hroom : m.bumps (es ++ [e]) < UInt64.size) {caller : Caller} {b : Bearer}
    (hb : .bearer caller (.ok b) ∈ ((m.after es).step e).2) :
    (∃ key, (m.after es).slot = .apiKey key ∧ b = .ofApiKey key) ∨
      ∃ c, m.inForce (es ++ [e]) = some c ∧ b.accountId = c.bearer.accountId := by
  have hfresh := h.fresh hroom
  rw [after_append] at hfresh
  rcases (step_move (m.after es) e).bearer_eq hfresh hb with hkey | ⟨c, hc, rfl⟩
  · exact .inl hkey
  · exact .inr ⟨c, hc, rfl⟩

/-! ## The whole -/

/-- What refreshes carry over, after the events `es` and when the event `e` happens. -/
structure CarryOver (m : Manager) (es : List Event) (e : Event) : Prop where
  /-- A chain of renewals carries over what the issuer has left out, whichever credential it begins
  with. -/
  chain : ∀ first rs c, Credential.renewed m.config first rs = .ok c → Inherits first rs c
  /-- The credential in force is the end of such a chain. -/
  inForce : ∀ c, m.inForce es = some c →
    ∃ d, m.descent es = some d ∧ Credential.renewed m.config d.first d.renewals = .ok c
  /-- A bearer that is handed out has the account of the credential in force, or is an API key. -/
  bearer : ∀ caller b, .bearer caller (.ok b) ∈ ((m.after es).step e).2 →
    (∃ key, (m.after es).slot = .apiKey key ∧ b = .ofApiKey key) ∨
      ∃ c, m.inForce (es ++ [e]) = some c ∧ b.accountId = c.bearer.accountId

/-- **Refreshes carry over what the issuer has left out**, but for what an identity token takes away
that cannot be read. -/
theorem Made.refreshes_carry_over (h : m.Made) {es : List Event} {e : Event}
    (hroom : m.bumps (es ++ [e]) < UInt64.size) : CarryOver m es e := by
  constructor
  case chain =>
    intro first rs c hmade
    have hmadeOf := madeOf_of_renewed hmade
    exact ⟨hmadeOf, hmadeOf.part_iff id, hmadeOf.part_iff (·.accountId)⟩
  case inForce =>
    intro c hc
    rw [bumps_append] at hroom
    exact h.exists_descent (by omega) hc
  case bearer =>
    intro caller b hb
    exact h.account_eq hroom hb

/-- A credential of an account that expired long ago. -/
def counted : Credential :=
  { Credential.spent with identity := { accountId := some "acc-1" } }

/-- It is refreshed, and what should tell who the new one is about cannot be read. -/
def garbledRun : List Event :=
  [.demand 0 (.valid .epoch),
    .reply 0 (successWith
      "\x7b\"id_token\":\"opaque\",\"access_token\":\"b\",\"expires_in\":3600\x7d") .epoch]

/-- The renewal that is committed to. -/
def garbledRenewal : Renewal where
  now := .epoch
  grant := ⟨some "opaque", "b", none, some 3600⟩

/-- What there was to know is lost. -/
theorem garbledRun_descent :
    (ofCredential {} counted).descent garbledRun = some ⟨counted, [garbledRenewal]⟩ ∧
      ((ofCredential {} counted).inForce garbledRun).map (·.identity) = some {} := by
  decide +kernel

/-- The identity of the last token that could be read is not always kept. -/
theorem not_always_carried :
    ¬ ∀ m es d c, Made m → m.bumps es < UInt64.size → m.descent es = some d →
      m.inForce es = some c → c.identity = identityKept d.first d.renewals := by
  intro h
  obtain ⟨hdescent, hidentity⟩ := garbledRun_descent
  obtain ⟨c, hc, hnone⟩ := Option.map_eq_some_iff.mp hidentity
  have hroom : (ofCredential {} counted).bumps garbledRun < UInt64.size := by decide +kernel
  have hkept := h _ _ _ _ (.ofCredential {} counted) hroom hdescent hc
  rw [hnone] at hkept
  revert hkept
  decide +kernel

/-- The new credential has what the reply brought, and no account any more. -/
theorem garbledRun_carried :
    (ofCredential {} counted).bumps (garbledRun ++ [.logout]) < UInt64.size ∧
      ∃ c, (ofCredential {} counted).inForce garbledRun = some c ∧
        Inherits counted [garbledRenewal] c ∧ c.accessToken = "b" ∧ c.refreshToken = "r" ∧
          c.bearer.accountId = none := by
  have hroom : (ofCredential {} counted).bumps (garbledRun ++ [.logout]) < UInt64.size := by
    decide +kernel
  have hover := (Made.ofCredential {} counted).refreshes_carry_over hroom
  obtain ⟨hdescent, hidentity⟩ := garbledRun_descent
  obtain ⟨c, hc, hnone⟩ := Option.map_eq_some_iff.mp hidentity
  obtain ⟨d, hd, hmade⟩ := hover.inForce c hc
  obtain rfl := Option.some.inj (hdescent.symm.trans hd)
  have hinherits := hover.chain _ _ _ hmade
  refine ⟨hroom, c, hc, hinherits, hinherits.madeOf.accessToken, hinherits.madeOf.refreshToken, ?_⟩
  show c.identity.accountId = none
  rw [hnone]

end Manager

end Courier.Auth
