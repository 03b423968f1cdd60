import Courier.Auth.Lifecycle

/-!
# Replies that cannot be dealt with

`Grant.ofReply?` is the grant that the issuer sent, if there is one. Whatever else a reply may hold,
there is a ruling on it; only a grant can lead to none, and does so exactly when its expiry lies
outside of the range of instants (`Ruling.ofRefresh_eq_brokenOff_iff` for a refresh).

`Event.InRange` says that an event is no reply with such a grant, so a refresh can deal with exactly
the replies that are in range (`Event.inRange_reply_iff`).
-/

namespace Courier.Auth

open Courier.Http Courier.Json Courier.Time

/-! ## Grants in replies -/

/-- The grant in the body of an answer with a status of success. -/
def Grant.ofReply? : Reply → Option Grant
  | .answered r =>
    if r.status.isSuccess then
      r.body.bind fun octets => (decodeOctets Grant.decode octets).toOption
    else none
  | .timedOut _ => none
  | .failed _ => none

/-- The lifetime that a reply grants, as it says or as its token says or else `defaultLifetime`,
ends within the range of instants. -/
def Event.InRange : Event → Prop
  | .reply _ r now => ∀ g ∈ Grant.ofReply? r, g.expiresAt? now ≠ none
  | _ => True

instance : (e : Event) → Decidable e.InRange
  | .reply _ r now => inferInstanceAs (Decidable (∀ g ∈ Grant.ofReply? r, g.expiresAt? now ≠ none))
  | .demand .. => isTrue trivial
  | .authorize .. => isTrue trivial
  | .logout => isTrue trivial
  | .leave _ => isTrue trivial
  | .overwrite _ => isTrue trivial

/-! ## Rulings -/

/-- A grant is not dealt with if its expiry is out of range, once there is a token to refresh
with. -/
theorem Credential.ofGrant_eq_expiryOutOfRange_iff {config : Config} {previous : Option Credential}
    {now : Instant} {g : Grant} :
    Credential.ofGrant config previous now g = .error .expiryOutOfRange ↔
      (g.refreshToken.or (previous.map (·.refreshToken))).isSome ∧ g.expiresAt? now = none := by
  unfold Credential.ofGrant
  cases g.refreshToken.or (previous.map (·.refreshToken)) with
  | none => simp
  | some token => cases g.expiresAt? now <;> simp

/-- The credential that a grant makes: it is made if there is a token to refresh with and the expiry
is in range. -/
theorem Credential.ofGrant_eq_ok_iff {config : Config} {previous : Option Credential}
    {now : Instant} {g : Grant} {c : Credential} :
    Credential.ofGrant config previous now g = .ok c ↔
      g.refreshToken.or (previous.map (·.refreshToken)) = some c.refreshToken ∧
        g.expiresAt? now = some c.expiresAt ∧ c.accessToken = g.accessToken ∧
          c.clientId = config.clientId ∧ c.issuer = config.issuer ∧
            c.identity = g.identityAfter previous := by
  obtain ⟨accessToken, refreshToken, expiresAt, clientId, issuer, identity⟩ := c
  unfold Credential.ofGrant
  cases g.refreshToken.or (previous.map (·.refreshToken)) with
  | none => simp
  | some token =>
    cases g.expiresAt? now with
    | none => simp
    | some instant =>
      simp only [Except.ok.injEq, Credential.mk.injEq, Option.some.injEq]
      constructor
      · rintro ⟨rfl, rfl, rfl, rfl, rfl, rfl⟩
        exact ⟨rfl, rfl, rfl, rfl, rfl, rfl⟩
      · rintro ⟨rfl, rfl, rfl, rfl, rfl, rfl⟩
        exact ⟨rfl, rfl, rfl, rfl, rfl, rfl⟩

/-- A body is not dealt with exactly if the grant in it is not. -/
theorem Ruling.ofBody_eq_brokenOff_iff {refusal incomplete : String → Failure} {config : Config}
    {previous : Option Credential} {now : Instant} {body : Option (List UInt8)} :
    Ruling.ofBody refusal incomplete config previous now body = .brokenOff ↔
      ∃ g, (body.bind fun octets => (decodeOctets Grant.decode octets).toOption) = some g ∧
        Credential.ofGrant config previous now g = .error .expiryOutOfRange := by
  unfold Ruling.ofBody
  cases body.bind fun octets => (decodeOctets Grant.decode octets).toOption with
  | none => simp
  | some g =>
    cases h : Credential.ofGrant config previous now g with
    | ok c => simp [h]
    | error e => cases e <;> simp [h]

/-- **The one reply that a refresh cannot deal with** is a grant whose expiry is out of range. -/
theorem Ruling.ofRefresh_eq_brokenOff_iff {config : Config} {c : Credential} {now : Instant}
    {reply : Reply} :
    Ruling.ofRefresh config c now reply = .brokenOff ↔
      ∃ g, Grant.ofReply? reply = some g ∧ g.expiresAt? now = none := by
  cases reply with
  | answered r =>
    cases hs : r.status.isSuccess with
    | true =>
      simp [Ruling.ofRefresh, Grant.ofReply?, hs, Ruling.ofBody_eq_brokenOff_iff,
        Credential.ofGrant_eq_expiryOutOfRange_iff]
    | false => simp [Ruling.ofRefresh, Grant.ofReply?, hs]
  | timedOut url => simp [Ruling.ofRefresh, Grant.ofReply?]
  | failed f => simp [Ruling.ofRefresh, Grant.ofReply?]

/-- A refresh can deal with exactly the replies that are in range. -/
theorem Event.inRange_reply_iff {number : Nat} {reply : Reply} {now : Instant} (config : Config)
    (c : Credential) :
    (Event.reply number reply now).InRange ↔
      Ruling.ofRefresh config c now reply ≠ .brokenOff := by
  rw [Ne, Ruling.ofRefresh_eq_brokenOff_iff]
  constructor
  · rintro h ⟨g, hg, hnone⟩
    exact h g hg hnone
  · intro h g hg hnone
    exact h ⟨g, hg, hnone⟩

end Courier.Auth
