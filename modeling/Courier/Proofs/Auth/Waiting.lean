import Courier.Proofs.Auth.Fencing

/-!
# Callers that go away

Whoever asks for a bearer may stop waiting at any time. Nobody else should notice: a refresh belongs
to the manager and not to the callers that wait for it, not even to the one that it was started for.

Take a run and some callers that ask for nothing but bearers, `gone`, and let them stay instead of
going away: `staying gone es`. **`leaving_unseen`** says that the two runs differ in nothing but in
who waits and in what the callers in `gone` get. Slot, generation, file and requests are the same
all the way, so is what everybody else gets, and a refresh that counts is taken over even if nobody
waits for it any more.

The proof erases the callers in `gone` from those who wait (`Manager.without`). A step of a manager
and the same step after erasure lead to the same manager, up to erasure (`without_step`), because
nothing but the list of those who are told is read off the waiters; and that one of them goes away
is itself erased (`without_leave`).
-/

namespace Courier.Auth

open Courier.Http Courier.Store Courier.Time

/-! ## Erasure -/

/-- One of the callers in `gone` goes away. -/
def Event.departs (gone : Caller → Bool) : Event → Bool
  | .leave caller => gone caller
  | _ => false

/-- One of the callers in `gone` gets a bearer, or learns why there is none. -/
def Output.answers (gone : Caller → Bool) : Output → Bool
  | .bearer caller _ => gone caller
  | _ => false

/-- The events of a run, if the callers in `gone` stay. -/
def staying (gone : Caller → Bool) (es : List Event) : List Event :=
  es.filter fun e => !e.departs gone

/-- What comes out of a run, but for what the callers in `gone` get. -/
def overheard (gone : Caller → Bool) (out : List Output) : List Output :=
  out.filter fun o => !o.answers gone

namespace Manager

variable {m n : Manager} {gone : Caller → Bool}

/-- A manager for which none of the callers in `gone` waits. -/
def without (m : Manager) (gone : Caller → Bool) : Manager :=
  { m with waiters := m.waiters.filter fun w => !gone w.caller }

/-- A manager for which nobody waits. -/
def unattended (m : Manager) : Manager :=
  { m with waiters := [] }

/-- Taking something out first makes no difference if it is taken out in the end. -/
theorem filter_filter_filter {α : Type} (p q : α → Bool) (l : List α) :
    ((l.filter p).filter q).filter p = (l.filter q).filter p := by
  simp only [List.filter_filter]
  apply List.filter_congr
  intro x _
  cases p x <;> simp

/-- Who has been erased can be erased again. -/
theorem without_without (m : Manager) (gone : Caller → Bool) :
    (m.without gone).without gone = m.without gone := by
  simp [without, List.filter_filter]

/-- Managers that are alike after erasure differ in nothing but in who waits. -/
theorem unattended_eq (h : m.without gone = n.without gone) : m.unattended = n.unattended := by
  show (m.without gone).unattended = (n.without gone).unattended
  rw [h]

/-- Those who are told and are not in `gone` are told the same if those in `gone` do not wait. -/
theorem overheard_tellWaiters (m : Manager) (gone : Caller → Bool) (r : Refresh)
    (answer : Except Failure Bearer) :
    overheard gone ((m.without gone).tellWaiters r answer) =
      overheard gone (m.tellWaiters r answer) := by
  unfold overheard tellWaiters without
  rw [List.filter_map, List.filter_map, List.filter_filter, List.filter_filter,
    List.filter_filter]
  congr 1
  apply List.filter_congr
  intro w _
  simp only [Function.comp_apply, Output.answers]
  cases gone w.caller <;> simp

/-! ## Steps -/

/-- A demand is met, joined or refused alike. -/
theorem without_onDemand (m : Manager) (gone : Caller → Bool) (caller : Caller) (d : Demand) :
    ((m.without gone).onDemand caller d).1.without gone =
        (m.onDemand caller d).1.without gone ∧
      ((m.without gone).onDemand caller d).2 = (m.onDemand caller d).2 := by
  have hslot : (m.without gone).slot = m.slot := rfl
  have hconfig : (m.without gone).config = m.config := rfl
  have hflight : (m.without gone).flight = m.flight := rfl
  unfold onDemand joinRefresh
  rw [hslot, hconfig, hflight]
  cases d.answer? m.config m.slot with
  | some r => exact ⟨without_without m gone, rfl⟩
  | none =>
    cases m.flight with
    | some flight =>
      cases flight with
      | running number =>
        refine ⟨?_, rfl⟩
        simp [without, List.filter_append, List.filter_filter]
      | brokenOff => exact ⟨without_without m gone, rfl⟩
    | none =>
      cases m.slot.credential? with
      | none => exact ⟨without_without m gone, rfl⟩
      | some c =>
        refine ⟨?_, rfl⟩
        simp [startRefresh, supersede, without, List.filter_append, List.filter_filter]

/-- The end of a refresh is alike, but for what those in `gone` are told. -/
theorem without_onRefreshed (m : Manager) (gone : Caller → Bool) (r : Refresh) (u : Ruling)
    (now : Instant) :
    ((m.without gone).onRefreshed r u now).1.without gone =
        (m.onRefreshed r u now).1.without gone ∧
      overheard gone ((m.without gone).onRefreshed r u now).2 =
        overheard gone (m.onRefreshed r u now).2 := by
  have hflight : (m.without gone).flight = m.flight := rfl
  have hawaits : (m.without gone).awaits r = m.awaits r := rfl
  unfold onRefreshed
  rw [hawaits, hflight]
  cases u with
  | brokenOff =>
    refine ⟨?_, overheard_tellWaiters m gone r _⟩
    simp only [endRefresh, without, filter_filter_filter]
  | granted c =>
    cases m.awaits r with
    | true =>
      refine ⟨?_, overheard_tellWaiters m gone r _⟩
      simp only [endRefresh, adopt, persist, without, filter_filter_filter, if_true]
    | false =>
      refine ⟨?_, overheard_tellWaiters m gone r _⟩
      simp only [endRefresh, without, filter_filter_filter, Bool.false_eq_true, if_false]
  | refused f =>
    cases m.awaits r with
    | true =>
      refine ⟨?_, overheard_tellWaiters m gone r _⟩
      simp only [endRefresh, without, filter_filter_filter, if_true]
    | false =>
      refine ⟨?_, overheard_tellWaiters m gone r _⟩
      simp only [endRefresh, without, filter_filter_filter, Bool.false_eq_true, if_false]

/-- The end of an exchange is alike. -/
theorem without_onAuthorized (m : Manager) (gone : Caller → Bool) (a : Authorization) (u : Ruling)
    (now : Instant) :
    ((m.without gone).onAuthorized a u now).1.without gone =
        (m.onAuthorized a u now).1.without gone ∧
      ((m.without gone).onAuthorized a u now).2 = (m.onAuthorized a u now).2 := by
  have hslot : (m.without gone).slot = m.slot := rfl
  have hgen : (m.without gone).generation = m.generation := rfl
  unfold onAuthorized
  rw [hslot, hgen]
  cases u with
  | brokenOff => simp [endAuthorization, without, List.filter_filter]
  | granted c =>
    by_cases hg : m.generation = a.generation
    · simp [hg, endAuthorization, adopt, persist, without, List.filter_filter]
    · simp [hg, endAuthorization, without, List.filter_filter]
  | refused f => simp [endAuthorization, without, List.filter_filter]

/-- Everything is forgotten alike. -/
theorem without_onLogout (m : Manager) (gone : Caller → Bool) :
    ((m.without gone).onLogout).1.without gone = m.onLogout.1.without gone ∧
      (m.without gone).onLogout.2 = m.onLogout.2 := by
  obtain ⟨config, file, slot, flight, generation, requests, refreshes, authorizations, waiters⟩ := m
  cases file with
  | none => simp [onLogout, supersede, without, List.filter_filter]
  | some node =>
    cases node <;> simp [onLogout, supersede, without, Node.remove, List.filter_filter]

/-- **A step leads to the same manager**, up to erasure, whether or not those in `gone` wait, and
what the others get is the same. -/
theorem without_step (m : Manager) (gone : Caller → Bool) (e : Event) :
    ((m.without gone).step e).1.without gone = (m.step e).1.without gone ∧
      overheard gone ((m.without gone).step e).2 = overheard gone (m.step e).2 := by
  cases e with
  | demand caller d =>
    obtain ⟨hnext, hout⟩ := without_onDemand m gone caller d
    exact ⟨hnext, congrArg _ hout⟩
  | authorize caller verifier code =>
    refine ⟨?_, rfl⟩
    simp [step, onAuthorize, supersede, without, List.filter_filter]
  | logout =>
    obtain ⟨hnext, hout⟩ := without_onLogout m gone
    exact ⟨hnext, congrArg _ hout⟩
  | leave caller =>
    refine ⟨?_, rfl⟩
    simp only [step, onLeave, without, filter_filter_filter]
  | reply number reply now =>
    have hrefreshes : (m.without gone).refreshes = m.refreshes := rfl
    have hauthorizations : (m.without gone).authorizations = m.authorizations := rfl
    have hconfig : (m.without gone).config = m.config := rfl
    simp only [step, onReply]
    rw [hrefreshes, hauthorizations, hconfig]
    cases m.refreshes.find? (·.number == number) with
    | some r => exact without_onRefreshed m gone r _ now
    | none =>
      cases m.authorizations.find? (·.number == number) with
      | some a =>
        obtain ⟨hnext, hout⟩ := without_onAuthorized m gone a (.ofExchange m.config now reply) now
        exact ⟨hnext, congrArg _ hout⟩
      | none => exact ⟨without_without m gone, rfl⟩
  | overwrite node =>
    refine ⟨?_, rfl⟩
    simp [step, without, List.filter_filter]

/-- That one of those in `gone` goes away leads to the same manager, up to erasure, if it does not
exchange a code. -/
theorem without_leave {caller : Caller} (hgone : gone caller = true)
    (hidle : ∀ a ∈ m.authorizations, gone a.caller = false) :
    (m.step (.leave caller)).1.without gone = m.without gone := by
  have hauthorizations : m.authorizations.filter (·.caller != caller) = m.authorizations := by
    apply List.filter_eq_self.mpr
    intro a ha
    have hne : a.caller ≠ caller := by
      intro he
      have hstays := hidle a ha
      rw [he, hgone] at hstays
      cases hstays
    exact bne_iff_ne.mpr hne
  simp only [step, onLeave, without, hauthorizations, List.filter_filter]
  congr 1
  apply List.filter_congr
  intro w _
  by_cases he : w.caller = caller
  · simp [he, hgone]
  · simp [he]

/-! ## Runs -/

/-- None of the callers in `gone` exchanges a code, if none of them brings one back. -/
theorem idle_step {e : Event} (hidle : ∀ a ∈ m.authorizations, gone a.caller = false)
    (hasks : ∀ caller verifier code, e = .authorize caller verifier code → gone caller = false) :
    ∀ a ∈ (m.step e).1.authorizations, gone a.caller = false := by
  intro a ha
  rcases (step_move m e).mem_authorizations_began ha with ha | ⟨verifier, code, he⟩
  · exact hidle a ha
  · exact hasks a.caller verifier code he

/-- **A run leads to the same manager**, up to erasure, whether the callers in `gone` go away or
stay, and what the others get is the same. -/
theorem without_after (h : m.without gone = n.without gone)
    (hidle : ∀ a ∈ m.authorizations, gone a.caller = false) {es : List Event}
    (hasks : ∀ caller verifier code, .authorize caller verifier code ∈ es → gone caller = false) :
    (m.after es).without gone = (n.after (staying gone es)).without gone ∧
      overheard gone (m.outputs es) = overheard gone (n.outputs (staying gone es)) := by
  induction es generalizing m n with
  | nil => exact ⟨h, rfl⟩
  | cons e es ih =>
    have hidle' : ∀ a ∈ (m.step e).1.authorizations, gone a.caller = false := by
      apply idle_step hidle
      rintro caller verifier code rfl
      exact hasks caller verifier code List.mem_cons_self
    have hasks' : ∀ caller verifier code, .authorize caller verifier code ∈ es →
        gone caller = false := by
      intro caller verifier code hmem
      exact hasks caller verifier code (List.mem_cons_of_mem _ hmem)
    cases hdeparts : e.departs gone with
    | true =>
      -- The step is missing in the other run, and is erased in this one.
      have hstaying : staying gone (e :: es) = staying gone es := by simp [staying, hdeparts]
      cases e with
      | leave caller =>
        have hnext : (m.step (.leave caller)).1.without gone = n.without gone :=
          (without_leave hdeparts hidle).trans h
        rw [hstaying]
        exact ih hnext hidle' hasks'
      | _ => cases hdeparts
    | false =>
      -- Both runs take the step, and erasure does not see a difference.
      have hstaying : staying gone (e :: es) = e :: staying gone es := by simp [staying, hdeparts]
      obtain ⟨hm, hmout⟩ := without_step m gone e
      obtain ⟨hn, hnout⟩ := without_step n gone e
      have hnext : (m.step e).1.without gone = (n.step e).1.without gone := by
        rw [← hm, ← hn, h]
      have hout : overheard gone (m.step e).2 = overheard gone (n.step e).2 := by
        rw [← hmout, ← hnout, h]
      obtain ⟨hafter, hrest⟩ := ih hnext hidle' hasks'
      rw [hstaying]
      refine ⟨hafter, ?_⟩
      unfold overheard at hout hrest ⊢
      rw [outputs_cons, outputs_cons, List.filter_append, List.filter_append, hout, hrest]

/-- Whether the callers in `gone` go away in the course of the events `es` or stay makes no
difference to anything but themselves. -/
structure LeavingUnseen (m : Manager) (gone : Caller → Bool) (es : List Event) : Prop where
  /-- All the way, the managers differ in nothing but in who waits: neither in slot, generation and
  file nor in the refresh to join and the open requests. -/
  course : ∀ pre post, es = pre ++ post →
    (m.after pre).unattended = (m.after (staying gone pre)).unattended
  /-- The same comes out, requests and results, but for what the callers in `gone` get. -/
  heard : overheard gone (m.outputs es) = overheard gone (m.outputs (staying gone es))
  /-- A refresh that would count if they stayed is taken over, whoever is left to wait for it. -/
  committed : ∀ r ∈ (m.after (staying gone es)).refreshes,
    (m.after (staying gone es)).awaits r = true →
    ∀ reply now, (Event.reply r.number reply now).InRange →
      (m.after es).Commits (.ofRefresh m.config r.credential now reply) now
        ((m.after es).step (.reply r.number reply now)).1

/-- **That callers stop waiting for a bearer makes no difference to anybody else.** -/
theorem Made.leaving_unseen (h : m.Made) {es : List Event}
    (hasks : ∀ caller verifier code, .authorize caller verifier code ∈ es → gone caller = false) :
    LeavingUnseen m gone es := by
  have hidle : ∀ a ∈ m.authorizations, gone a.caller = false := by
    intro a ha
    rw [h.atRest.authorizations] at ha
    cases ha
  obtain ⟨hafter, hheard⟩ := without_after (n := m) rfl hidle hasks
  have hsame := unattended_eq hafter
  constructor
  case course =>
    rintro pre post rfl
    have hasks' : ∀ caller verifier code, .authorize caller verifier code ∈ pre →
        gone caller = false := by
      intro caller verifier code hmem
      exact hasks caller verifier code (List.mem_append_left _ hmem)
    exact unattended_eq (without_after rfl hidle hasks').1
  case heard => exact hheard
  case committed =>
    intro r hr hawaits reply now hrange
    have hr' : r ∈ (m.after es).unattended.refreshes := by
      rw [hsame]
      exact hr
    have hawaits' : (m.after es).unattended.awaits r = true := by
      rw [hsame]
      exact hawaits
    have hend := (step_move (m.after es) (.reply r.number reply now)).refreshEnd
      (h.atRest.numbered.after es) hr' rfl
    rw [config_after] at hend
    exact hend.commits ((Event.inRange_reply_iff _ _).mp hrange) hawaits'

/-- Two callers need a refresh, both go away, and then there is a reply. -/
def deserted : List Event :=
  [.demand 0 (.valid .epoch), .demand 1 (.valid .epoch), .leave 0, .leave 1,
    .reply 0 (successWith "\x7b\"access_token\":\"b\",\"expires_in\":60\x7d") .epoch]

/-- The credential is replaced although nobody waits for it any more. -/
theorem leaving_unseen_deserted :
    (∀ caller verifier code, .authorize caller verifier code ∈ deserted → true = false) ∧
      LeavingUnseen (ofCredential {} .spent) (fun _ => true) deserted ∧
      ((ofCredential {} .spent).after deserted).slot.credential?.map (·.accessToken) =
        some "b" := by
  have hasks : ∀ caller verifier code, .authorize caller verifier code ∈ deserted →
      true = false := by
    intro caller verifier code hmem
    simp [deserted] at hmem
  refine ⟨hasks, (Made.ofCredential {} .spent).leaving_unseen hasks, ?_⟩
  decide +kernel

end Manager

end Courier.Auth
