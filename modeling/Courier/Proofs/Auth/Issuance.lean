import Courier.Proofs.Auth.Reuse

/-!
# Where bearers come from

Whatever a manager signs requests with was there from the start or has been issued since.

* `m.issued? e` is the access token that an event brings: the one of a grant in the reply to an open
  request, whatever becomes of that grant, and `m.issuedIn es` are those of a run.
* `m.AtHand token` says that a manager could come to sign with a token without any reply: it is in
  the slot, or is what an exchange has found there. Only what is issued gets there
  (`Move.atHand`, `known_of_atHand`).
* Who asks for a bearer gets one that is at hand, or one that the reply has just brought
  (`Move.bearer_cases`).

Where the issuer brings no token a second time, and none that was at hand to begin with
(`NeverTwice`), a token that a reply brings is a new one (`NeverTwice.not_known`).
-/

namespace Courier.Auth

open Courier.Http Courier.Json Courier.Time

/-! ## What a reply grants -/

/-- The access token of a credential is the one of the grant. -/
theorem Credential.accessToken_of_ofGrant {config : Config} {previous : Option Credential}
    {now : Instant} {g : Grant} {c : Credential}
    (h : Credential.ofGrant config previous now g = .ok c) : c.accessToken = g.accessToken :=
  (Credential.ofGrant_eq_ok_iff.mp h).2.2.1

/-- A refresh gives a credential with the access token of the reply. -/
theorem Ruling.accessToken_of_ofRefresh {config : Config} {c c' : Credential} {now : Instant}
    {reply : Reply} (h : Ruling.ofRefresh config c now reply = .granted c') :
    (Grant.ofReply? reply).map (·.accessToken) = some c'.accessToken := by
  obtain ⟨g, hg, hc⟩ := Ruling.exists_of_ofRefresh_eq_granted h
  rw [hg, Credential.accessToken_of_ofGrant hc]
  rfl

/-- An exchange gives a credential with the access token of the reply. -/
theorem Ruling.accessToken_of_ofExchange {config : Config} {c : Credential} {now : Instant}
    {reply : Reply} (h : Ruling.ofExchange config now reply = .granted c) :
    (Grant.ofReply? reply).map (·.accessToken) = some c.accessToken := by
  obtain ⟨g, hg, hc⟩ := Ruling.exists_of_ofExchange_eq_granted h
  rw [hg, Credential.accessToken_of_ofGrant hc]
  rfl

/-! ## What is at hand -/

/-- The token that requests are signed with out of a slot: the access token of a credential, or the
API key. -/
def Slot.token? : Slot → Option String
  | .apiKey key => some key
  | s => s.credential?.map (·.accessToken)

/-- Settling a slot changes nothing about its token. -/
@[simp] theorem Slot.token?_settled (s : Slot) : s.settled.token? = s.token? := by
  cases s <;> rfl

namespace Manager

variable {m m' : Manager} {e : Event} {es : List Event} {out : List Output} {token : String}

/-- A manager could come to sign with a token without any reply: it is in the slot, or is what an
exchange that has not been answered has found there. -/
def AtHand (m : Manager) (token : String) : Prop :=
  m.slot.token? = some token ∨ ∃ a ∈ m.authorizations, a.previous.token? = some token

/-- The access token that an event brings: that of the grant in the reply to an open request. -/
def issued? (m : Manager) : Event → Option String
  | .reply number r _ =>
    if m.refreshes.any (·.number == number) || m.authorizations.any (·.number == number) then
      (Grant.ofReply? r).map (·.accessToken)
    else none
  | _ => none

/-- The reply to a refresh brings what the reply grants. -/
theorem issued?_refresh {r : Refresh} (hr : r ∈ m.refreshes) (reply : Reply) (now : Instant) :
    m.issued? (.reply r.number reply now) = (Grant.ofReply? reply).map (·.accessToken) := by
  have hopen : m.refreshes.any (·.number == r.number) = true :=
    List.any_eq_true.mpr ⟨r, hr, beq_self_eq_true r.number⟩
  simp [issued?, hopen]

/-- The reply to an exchange brings what the reply grants. -/
theorem issued?_exchange {a : Authorization} (ha : a ∈ m.authorizations) (reply : Reply)
    (now : Instant) :
    m.issued? (.reply a.number reply now) = (Grant.ofReply? reply).map (·.accessToken) := by
  have hopen : m.authorizations.any (·.number == a.number) = true :=
    List.any_eq_true.mpr ⟨a, ha, beq_self_eq_true a.number⟩
  simp [issued?, hopen]

/-- What is at hand after the end of a refresh was at hand before, or is granted. -/
theorem RefreshEnd.atHand {r : Refresh} {u : Ruling} {now : Instant}
    (he : RefreshEnd m r u now m' out) (h : m'.AtHand token) :
    m.AtHand token ∨ ∃ c, u = .granted c ∧ c.accessToken = token := by
  cases he with
  | broken hu hf => exact .inl h
  | late hu hw => exact .inl h
  | granted hu hw =>
    rcases h with hslot | hsaved
    · exact .inr ⟨_, hu, Option.some.inj hslot⟩
    · exact .inl (.inr hsaved)
  | refused hu hw =>
    rcases h with hslot | hsaved
    · cases hslot
    · exact .inl (.inr hsaved)

/-- What is at hand after the end of an exchange was at hand before, or is granted. -/
theorem ExchangeEnd.atHand {a : Authorization} (ha : a ∈ m.authorizations) {u : Ruling}
    {now : Instant} (he : ExchangeEnd m a u now m' out) (h : m'.AtHand token) :
    m.AtHand token ∨ ∃ c, u = .granted c ∧ c.accessToken = token := by
  have hsaved : (∃ b ∈ m.authorizations.filter (·.number != a.number),
      b.previous.token? = some token) → m.AtHand token := by
    rintro ⟨b, hb, htoken⟩
    exact .inr ⟨b, (List.mem_filter.mp hb).1, htoken⟩
  cases he with
  | granted hu hg =>
    rcases h with hslot | h
    · exact .inr ⟨_, hu, Option.some.inj hslot⟩
    · exact .inl (hsaved h)
  | refused hu hg hs =>
    rcases h with hslot | h
    · exact .inl (.inr ⟨a, ha, by simpa using hslot⟩)
    · exact .inl (hsaved h)
  | _ =>
    rcases h with hslot | h
    · exact .inl (.inl hslot)
    · exact .inl (hsaved h)

/-- **What is at hand after a step was at hand before, or the step brings it.** -/
theorem Move.atHand (hm : Move m e m' out) (h : m'.AtHand token) :
    m.AtHand token ∨ m.issued? e = some token := by
  cases hm with
  | @started _ _ c hd hf hs =>
    refine .inl ?_
    rcases h with hslot | hsaved
    · refine .inl ?_
      rcases hs with hs | hs <;> rw [hs] <;> exact hslot
    · exact .inr hsaved
  | began =>
    refine .inl ?_
    rcases h with hslot | ⟨a, ha, htoken⟩
    · cases hslot
    · rcases List.mem_append.mp ha with ha | ha
      · exact .inr ⟨a, ha, htoken⟩
      · rw [List.mem_singleton.mp ha] at htoken
        exact .inl htoken
  | forgotten =>
    rcases h with hslot | hsaved
    · cases hslot
    · exact .inl (.inr hsaved)
  | left =>
    rcases h with hslot | ⟨a, ha, htoken⟩
    · exact .inl (.inl hslot)
    · exact .inl (.inr ⟨a, (List.mem_filter.mp ha).1, htoken⟩)
  | refreshEnds hr he =>
    refine (he.atHand h).imp_right ?_
    rintro ⟨c, hu, rfl⟩
    rw [issued?_refresh hr, Ruling.accessToken_of_ofRefresh hu]
  | exchangeEnds hr ha he =>
    refine (he.atHand ha h).imp_right ?_
    rintro ⟨c, hu, rfl⟩
    rw [issued?_exchange ha, Ruling.accessToken_of_ofExchange hu]
  | _ => exact .inl h

/-! ## Who gets what -/

/-- A bearer that a demand gets at once is signed with what is in the slot. -/
theorem token?_of_answer? {d : Demand} {b : Bearer}
    (h : d.answer? m.config m.slot = some (.ok b)) : m.slot.token? = some b.token := by
  cases hs : m.slot with
  | apiKey key =>
    rw [hs] at h
    cases d with
    | valid now =>
      cases h
      rfl
    | other stale => cases h
  | authenticated c =>
    rw [hs] at h
    simp only [Demand.answer?, Option.ite_none_right_eq_some] at h
    obtain ⟨-, h⟩ := h
    cases h
    rfl
  | _ =>
    rw [hs] at h
    cases h

/-- A demand for another bearer does not get the same one at once. -/
theorem token_ne_of_answer? {stale b : Bearer}
    (h : (Demand.other stale).answer? m.config m.slot = some (.ok b)) : b.token ≠ stale.token := by
  cases hs : m.slot with
  | authenticated c =>
    rw [hs] at h
    simp only [Demand.answer?, Option.ite_none_right_eq_some] at h
    obtain ⟨hmet, h⟩ := h
    cases h
    exact bne_iff_ne.mp hmet
  | _ =>
    rw [hs] at h
    cases h

/-- **A bearer that a caller gets is what its demand gets at once, or is what the reply brings.** -/
theorem Move.bearer_cases (hm : Move m e m' out) {caller : Caller} {b : Bearer}
    (h : .bearer caller (.ok b) ∈ out) :
    (∃ d, e = .demand caller d ∧ d.answer? m.config m.slot = some (.ok b)) ∨
      m.issued? e = some b.token := by
  cases hm with
  | @answered k d r hd =>
    cases List.mem_singleton.mp h
    exact .inl ⟨d, rfl, hd⟩
  | refreshEnds hr he =>
    refine .inr ?_
    cases he with
    | @granted c hu hw =>
      obtain ⟨w, -, hw⟩ := List.mem_map.mp h
      cases hw
      rw [issued?_refresh hr, Ruling.accessToken_of_ofRefresh hu]
      rfl
    | _ =>
      obtain ⟨w, -, hw⟩ := List.mem_map.mp h
      cases hw
  | exchangeEnds hr ha he => cases he <;> simp at h
  | _ => simp at h

/-! ## Runs -/

/-- The access tokens that a run brings, in order. -/
def issuedIn : Manager → List Event → List String
  | _, [] => []
  | m, e :: es => (m.issued? e).toList ++ issuedIn (m.step e).1 es

/-- A run brings what its parts bring. -/
theorem issuedIn_append (m : Manager) (es fs : List Event) :
    m.issuedIn (es ++ fs) = m.issuedIn es ++ (m.after es).issuedIn fs := by
  induction es generalizing m with
  | nil => rfl
  | cons e es ih => simp [issuedIn, ih]

/-- A token is at hand from the start, or a run brings it. -/
def Known (m : Manager) (es : List Event) (token : String) : Prop :=
  m.AtHand token ∨ token ∈ m.issuedIn es

/-- What is known stays known. -/
theorem Known.append (h : m.Known es token) (fs : List Event) : m.Known (es ++ fs) token := by
  rw [Known, issuedIn_append]
  exact h.imp_right (List.mem_append_left _)

/-- **What is at hand after a run is known.** -/
theorem known_of_atHand (h : (m.after es).AtHand token) : m.Known es token := by
  induction es generalizing m with
  | nil => exact .inl h
  | cons e es ih =>
    rcases ih h with h | h
    · rcases (step_move m e).atHand h with h | h
      · exact .inl h
      · exact .inr (List.mem_append_left _ (by rw [h]; exact List.mem_singleton_self token))
    · exact .inr (List.mem_append_right _ h)

/-- What an event brings is known after it. -/
theorem known_of_issued (h : (m.after es).issued? e = some token) :
    m.Known (es ++ [e]) token := by
  refine .inr ?_
  rw [issuedIn_append, issuedIn, h]
  exact List.mem_append_right _ List.mem_cons_self

/-- The issuer brings no token twice, and none that was at hand from the start. -/
structure NeverTwice (m : Manager) (es : List Event) : Prop where
  nodup : (m.issuedIn es).Nodup
  not_atHand : ∀ token ∈ m.issuedIn es, ¬ m.AtHand token

/-- So it is in the beginning of a run. -/
theorem NeverTwice.of_append {fs : List Event} (h : m.NeverTwice (es ++ fs)) :
    m.NeverTwice es := by
  obtain ⟨hnodup, hnot⟩ := h
  rw [issuedIn_append] at hnodup hnot
  exact ⟨(List.nodup_append.mp hnodup).1, fun t ht => hnot t (List.mem_append_left _ ht)⟩

/-- So it is from where a run leads on. -/
theorem NeverTwice.after {fs : List Event} (h : m.NeverTwice (es ++ fs)) :
    (m.after es).NeverTwice fs := by
  obtain ⟨hnodup, hnot⟩ := h
  rw [issuedIn_append] at hnodup hnot
  obtain ⟨-, hnodup, hdisjoint⟩ := List.nodup_append.mp hnodup
  refine ⟨hnodup, fun token htoken hhand => ?_⟩
  rcases known_of_atHand hhand with hhand | hissued
  · exact hnot token (List.mem_append_right _ htoken) hhand
  · exact hdisjoint token hissued token htoken rfl

/-- **What a reply brings was not known before.** -/
theorem NeverTwice.not_known (h : m.NeverTwice (es ++ [e]))
    (he : (m.after es).issued? e = some token) : ¬ m.Known es token := by
  obtain ⟨hnodup, hnot⟩ := h
  have hlast : m.issuedIn (es ++ [e]) = m.issuedIn es ++ [token] := by
    rw [issuedIn_append, issuedIn, he]
    rfl
  rw [hlast] at hnodup hnot
  rintro (hhand | hissued)
  · exact hnot token List.mem_concat_self hhand
  · exact (List.nodup_append.mp hnodup).2.2 token hissued token (List.mem_singleton_self token) rfl

end Manager

end Courier.Auth
