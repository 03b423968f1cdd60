import Courier.Client.Session
import Courier.Proofs.Auth.Issuance
import Mathlib.Control.Monad.Basic

/-!
# Carrying out a dispatch among others

A manager of credentials serves many callers, the issuer and the backend take their time, and
anything may happen meanwhile. An `Errand` is the state of one caller who carries out a dispatch
with such a manager: the manager, where the caller stands, what has happened to the manager and what
the caller has done so far. `Errand.run` lets things happen in any order.

* What is done follows the dispatch (`Stage.Leads`), whatever happens.
* Every bearer that the caller is told of is one that is known by then, and who asks for another
  bearer than one that it was told of before gets one with another token, if the issuer brings no
  token twice (`Errand.Sound`, `sound_run`).

Carrying out a dispatch with a peer that replies at once, as `Dispatch.run` does, is an errand of
this kind (`Dispatch.exists_run_start`).
-/

namespace Courier.Client

open Courier.Auth Courier.Http Courier.Time

/-! ## Stages and deeds -/

/-- Where a caller stands who carries out a dispatch. -/
inductive Stage where
  /-- There is something to do. -/
  | about (d : Dispatch)
  /-- The manager has been asked for a bearer. -/
  | asking (next : Except Auth.Failure Bearer → Dispatch)
  /-- Something has been sent to the backend. -/
  | posting (next : Reply → Dispatch)

/-- What a caller does, or is answered. -/
inductive Deed where
  /-- The manager is asked for a bearer. -/
  | asked (q : Demand)
  /-- The manager answers. -/
  | told (r : Except Auth.Failure Bearer)
  /-- Something is sent to the backend. -/
  | posted (d : Draft)
  /-- The backend replies, or it shows that it will not. -/
  | replied (r : Reply)
  /-- Some time passes. -/
  | waited (w : Wait)
  deriving DecidableEq

/-- What can be done at a stage, and where it leads. -/
inductive Stage.Goes : Stage → Deed → Stage → Prop where
  | ask (now : Instant) (next : Except Auth.Failure Bearer → Dispatch) :
      Goes (.about (.bearer next)) (.asked (.valid now)) (.asking next)
  | askOther (stale : Bearer) (next : Except Auth.Failure Bearer → Dispatch) :
      Goes (.about (.otherBearer stale next)) (.asked (.other stale)) (.asking next)
  | hear (next : Except Auth.Failure Bearer → Dispatch) (r : Except Auth.Failure Bearer) :
      Goes (.asking next) (.told r) (.about (next r))
  | post (d : Draft) (next : Reply → Dispatch) :
      Goes (.about (.post d next)) (.posted d) (.posting next)
  | receive (next : Reply → Dispatch) (r : Reply) :
      Goes (.posting next) (.replied r) (.about (next r))
  | wait (w : Wait) (next : Dispatch) : Goes (.about (.wait w next)) (.waited w) (.about next)

/-- What can be done from a stage on, one after the other, and where it leads. -/
inductive Stage.Leads : Stage → List Deed → Stage → Prop where
  | nil (s : Stage) : Leads s [] s
  | cons {s t u : Stage} {d : Deed} {ds : List Deed} :
      s.Goes d t → Leads t ds u → Leads s (d :: ds) u

/-- One more deed can be done at the end. -/
theorem Stage.Leads.concat {s t u : Stage} {ds : List Deed} {d : Deed} (h : s.Leads ds t)
    (hd : t.Goes d u) : s.Leads (ds ++ [d]) u := by
  induction h with
  | nil t => exact .cons hd (.nil u)
  | cons hgo hrest ih => exact .cons hgo (ih hd)

/-! ## Errands -/

/-- One caller's way through a dispatch, with the manager that it asks. -/
structure Errand where
  /-- The manager. -/
  manager : Manager
  /-- Where the caller stands. -/
  stage : Stage
  /-- What has happened to the manager. -/
  events : List Event := []
  /-- What the caller has done. -/
  deeds : List Deed := []

/-- What may happen next. -/
inductive Occurrence where
  /-- Something happens to the manager, without the caller. -/
  | aside (e : Event)
  /-- The caller does what there is to do. -/
  | onward (now : Instant)
  /-- The backend replies, or it shows that it will not. -/
  | answer (r : Reply)

/-- What a caller is told among some outputs. -/
def told? (k : Caller) (out : List Output) : Option (Except Auth.Failure Bearer) :=
  out.findSome? fun
    | .bearer caller r => if caller = k then some r else none
    | _ => none

/-- A caller is told what comes out for it. -/
theorem mem_of_told? {k : Caller} {out : List Output} {r : Except Auth.Failure Bearer}
    (h : told? k out = some r) : .bearer k r ∈ out := by
  obtain ⟨o, ho, hr⟩ := List.exists_of_findSome?_eq_some h
  cases o with
  | bearer caller r' =>
    simp only [Option.ite_none_right_eq_some, Option.some.injEq] at hr
    obtain ⟨rfl, rfl⟩ := hr
    exact ho
  | _ => cases hr

namespace Errand

/-- The errand of a dispatch with a manager. -/
def start (m : Manager) (d : Dispatch) : Errand :=
  { manager := m, stage := .about d }

/-- Something happens to the manager; the caller hears of it if it waits for an answer and this is
one. -/
def happen (k : Caller) (x : Errand) (e : Event) : Errand :=
  let x' := { x with manager := (x.manager.step e).1, events := x.events ++ [e] }
  match x.stage, told? k (x.manager.step e).2 with
  | .asking next, some r => { x' with stage := .about (next r), deeds := x.deeds ++ [.told r] }
  | _, _ => x'

/-- The caller asks the manager for something. -/
def ask (k : Caller) (x : Errand) (q : Demand) (next : Except Auth.Failure Bearer → Dispatch) :
    Errand :=
  let asked : Errand := { x with stage := .asking next, deeds := x.deeds ++ [.asked q] }
  asked.happen k (.demand k q)

/-- What becomes of an errand. What cannot happen changes nothing. -/
def step (k : Caller) (x : Errand) : Occurrence → Errand
  | .aside e => x.happen k e
  | .onward now =>
    match x.stage with
    | .about (.bearer next) => x.ask k (.valid now) next
    | .about (.otherBearer stale next) => x.ask k (.other stale) next
    | .about (.post d next) => { x with stage := .posting next, deeds := x.deeds ++ [.posted d] }
    | .about (.wait w next) => { x with stage := .about next, deeds := x.deeds ++ [.waited w] }
    | _ => x
  | .answer r =>
    match x.stage with
    | .posting next => { x with stage := .about (next r), deeds := x.deeds ++ [.replied r] }
    | _ => x

/-- What becomes of an errand in the end. -/
def run (k : Caller) (x : Errand) (os : List Occurrence) : Errand :=
  os.foldl (step k) x

/-! ## What holds in the course of an errand -/

variable {k : Caller} {m : Manager} {d : Dispatch} {x : Errand}

/-- What holds of an errand of the dispatch `d`, which began with the manager `m`. -/
structure Sound (m : Manager) (d : Dispatch) (x : Errand) : Prop where
  /-- The manager is what has become of it. -/
  manager_eq : x.manager = m.after x.events
  /-- What was done follows the dispatch. -/
  leads : Stage.Leads (.about d) x.deeds x.stage
  /-- The bearers that the caller was told of are known. -/
  known : ∀ b, .told (.ok b) ∈ x.deeds → m.Known x.events b.token
  /-- If the issuer brings no token twice, a bearer other than one that the caller was told of
  before has another token. -/
  fresh : m.NeverTwice x.events → ∀ ds b fresh,
    ds ++ [.asked (.other b), .told (.ok fresh)] <+: x.deeds → .told (.ok b) ∈ ds →
    fresh.token ≠ b.token

theorem sound_start (m : Manager) (d : Dispatch) : Sound m d (start m d) where
  manager_eq := rfl
  leads := .nil _
  known := by simp [start]
  fresh := by simp [start]

/-- Something happens to the manager, and the caller does not hear of it. -/
theorem Sound.aside (h : Sound m d x) (e : Event) :
    Sound m d { x with manager := (x.manager.step e).1, events := x.events ++ [e] } where
  manager_eq := by
    rw [Manager.after_append, ← h.manager_eq]
    rfl
  leads := h.leads
  known b hb := (h.known b hb).append [e]
  fresh hnever := h.fresh hnever.of_append

/-- One more deed: if a bearer is told, it is known, and it is another one if another one was asked
for. -/
theorem Sound.concat (h : Sound m d x) {a : Deed} {stage : Stage} (hgo : x.stage.Goes a stage)
    (hknown : ∀ b, a = .told (.ok b) → m.Known x.events b.token)
    (hfresh : m.NeverTwice x.events → ∀ ds stale b, a = .told (.ok b) →
      x.deeds = ds ++ [.asked (.other stale)] → .told (.ok stale) ∈ ds → b.token ≠ stale.token) :
    Sound m d { x with stage, deeds := x.deeds ++ [a] } where
  manager_eq := h.manager_eq
  leads := h.leads.concat hgo
  known b hb := by
    rcases List.mem_append.mp hb with hb | hb
    · exact h.known b hb
    · exact hknown b (List.mem_singleton.mp hb).symm
  fresh hnever ds stale b hprefix hstale := by
    rcases List.prefix_concat_iff.mp hprefix with heq | hprefix
    · have hsplit : (ds ++ [.asked (.other stale)]) ++ [.told (.ok b)] = x.deeds ++ [a] := by
        rw [List.append_assoc]
        exact heq
      obtain ⟨hdeeds, ha⟩ := List.append_inj' hsplit rfl
      exact hfresh hnever ds stale b (List.singleton_inj.mp ha).symm hdeeds.symm hstale
    · exact h.fresh hnever ds stale b hprefix hstale

/-- A deed that tells of nothing. -/
theorem Sound.concat_of_ne (h : Sound m d x) {a : Deed} {stage : Stage} (hgo : x.stage.Goes a stage)
    (ha : ∀ r, a ≠ .told r) : Sound m d { x with stage, deeds := x.deeds ++ [a] } := by
  apply h.concat hgo
  · intro b hb
    exact absurd hb (ha _)
  · intro _ _ _ b hb
    exact absurd hb (ha _)

/-- **What happens to the manager keeps the errand sound**, if nobody but the caller asks in its
name, and then only when it does. -/
theorem Sound.happen (h : Sound m d x) {e : Event}
    (hown : ∀ q, e = .demand k q → ∃ ds, x.deeds = ds ++ [.asked q]) :
    Sound m d (x.happen k e) := by
  unfold Errand.happen
  split
  next next r hstage htold =>
    have hsource : ∀ b, r = .ok b →
        (∃ q, e = .demand k q ∧ q.answer? x.manager.config x.manager.slot = some (.ok b)) ∨
          x.manager.issued? e = some b.token := by
      rintro b rfl
      exact (Manager.step_move x.manager e).bearer_cases (mem_of_told? htold)
    apply (h.aside e).concat
    · rw [hstage]
      exact .hear next r
    · intro b hb
      cases hb
      rcases hsource b rfl with ⟨q, -, hanswer⟩ | hissued
      · have hhand : x.manager.AtHand b.token := .inl (Manager.token?_of_answer? hanswer)
        rw [h.manager_eq] at hhand
        exact (Manager.known_of_atHand hhand).append [e]
      · rw [h.manager_eq] at hissued
        exact Manager.known_of_issued hissued
    · intro hnever ds stale b hb hdeeds hstale
      cases hb
      rcases hsource b rfl with ⟨q, he, hanswer⟩ | hissued
      · obtain ⟨ds', hds'⟩ := hown q he
        obtain ⟨-, hq⟩ := List.append_inj' (hds'.symm.trans hdeeds) rfl
        cases hq
        exact Manager.token_ne_of_answer? hanswer
      · intro htoken
        rw [h.manager_eq] at hissued
        exact hnever.not_known hissued (htoken ▸ h.known stale (by rw [hdeeds]; simp [hstale]))
  next => exact h.aside e

/-- Asking the manager keeps the errand sound. -/
theorem Sound.ask (h : Sound m d x) {q : Demand} {next : Except Auth.Failure Bearer → Dispatch}
    (hgo : x.stage.Goes (.asked q) (.asking next)) : Sound m d (x.ask k q next) := by
  apply (h.concat_of_ne hgo (by simp)).happen
  intro q' hq
  cases hq
  exact ⟨x.deeds, rfl⟩

/-- **Every step keeps an errand sound.** -/
theorem Sound.step (h : Sound m d x) {o : Occurrence} (halone : ∀ q, o ≠ .aside (.demand k q)) :
    Sound m d (x.step k o) := by
  cases o with
  | aside e =>
    apply h.happen
    rintro q rfl
    exact absurd rfl (halone q)
  | onward now =>
    simp only [Errand.step]
    split
    next next hs => exact h.ask (hs ▸ .ask now next)
    next stale next hs => exact h.ask (hs ▸ .askOther stale next)
    next draft next hs => exact h.concat_of_ne (hs ▸ .post draft next) (by simp)
    next w next hs => exact h.concat_of_ne (hs ▸ .wait w next) (by simp)
    next => exact h
  | answer r =>
    simp only [Errand.step]
    split
    next next hs => exact h.concat_of_ne (hs ▸ .receive next r) (by simp)
    next => exact h

/-- What comes of a sound errand is sound, if nobody else asks in the name of the caller. -/
theorem Sound.run (h : Sound m d x) {os : List Occurrence}
    (halone : ∀ q, .aside (.demand k q) ∉ os) : Sound m d (x.run k os) := by
  induction os generalizing x with
  | nil => exact h
  | cons o os ih =>
    apply ih
    · apply h.step
      rintro q rfl
      exact halone q List.mem_cons_self
    · intro q hq
      exact halone q (List.mem_cons_of_mem o hq)

/-- **Every errand is sound**, whatever happens in its course. -/
theorem sound_run (m : Manager) (d : Dispatch) {os : List Occurrence}
    (halone : ∀ q, .aside (.demand k q) ∉ os) : Sound m d ((start m d).run k os) :=
  (sound_start m d).run halone

/-! ## With a peer that replies at once -/

/-- One thing after the other. -/
theorem run_append (x : Errand) (os ps : List Occurrence) :
    x.run k (os ++ ps) = (x.run k os).run k ps :=
  List.foldl_append

end Errand

/-- A manager without a refresh that the issuer has not answered. -/
structure Settled (m : Manager) : Prop where
  refreshes : m.refreshes = []
  waiters : m.waiters = []
  flight : ∀ number, m.flight ≠ some (.running number)

/-- Nothing is under way where nothing has happened. -/
theorem settled_of_atRest {m : Manager} (h : m.AtRest) : Settled m where
  refreshes := h.refreshes
  waiters := h.waiters
  flight := by simp [h.flight]

/-- The only refresh ends with an answer to the only one who waits for it. -/
theorem settled_of_refreshEnd {m m' : Manager} {r : Refresh} {u : Ruling} {now : Instant}
    {out : List Output} {k : Caller} (he : m.RefreshEnd r u now m' out)
    (hrefreshes : m.refreshes = [r]) (hwaiters : m.waiters = [⟨k, r.number⟩])
    (hflight : m.flight = some (.running r.number)) (hawaits : m.awaits r = true) :
    (∃ answer, out = [.bearer k answer]) ∧ Settled m' := by
  constructor
  · refine ⟨m.resultOf r u, ?_⟩
    rw [he.told]
    simp [Manager.tellWaiters, hwaiters]
  · cases he with
    | broken hu hf =>
      rcases hf with ⟨-, rfl⟩ | ⟨hother, -⟩
      · exact ⟨by simp [hrefreshes], by simp [hwaiters], by simp⟩
      · exact absurd hflight hother
    | late hu hw => simp [hawaits] at hw
    | granted hu hw => exact ⟨by simp [hrefreshes], by simp [hwaiters], by simp⟩
    | refused hu hw => exact ⟨by simp [hrefreshes], by simp [hwaiters], by simp⟩

/-- The reply to a refresh that was started where there was none answers the one who asked. -/
theorem onReply_startRefresh {m : Manager} (h : Settled m) (k : Caller) (c : Credential)
    (reply : Reply) (now : Instant) :
    ∃ m' r, (m.startRefresh k c).1.onReply m.requests reply now = (m', [.bearer k r]) ∧
      Settled m' := by
  have hrefreshes : (m.startRefresh k c).1.refreshes = [⟨m.requests, m.generation + 1, c⟩] := by
    simp [Manager.startRefresh, Manager.supersede, h.refreshes]
  have hwaiters : (m.startRefresh k c).1.waiters = [⟨k, m.requests⟩] := by
    simp [Manager.startRefresh, Manager.supersede, h.waiters]
  have hawaits : (m.startRefresh k c).1.awaits ⟨m.requests, m.generation + 1, c⟩ = true := by
    simp [Manager.startRefresh, Manager.supersede, Manager.awaits, Slot.isRefreshing]
  have hfound : (m.startRefresh k c).1.refreshes.find? (·.number == m.requests)
      = some ⟨m.requests, m.generation + 1, c⟩ := by
    simp [hrefreshes]
  obtain ⟨⟨answer, hout⟩, hsettled⟩ := settled_of_refreshEnd
    (Manager.onRefreshed_end (m := (m.startRefresh k c).1) ⟨m.requests, m.generation + 1, c⟩
      (.ofRefresh (m.startRefresh k c).1.config c now reply) now) hrefreshes hwaiters rfl hawaits
  refine ⟨_, answer, ?_, hsettled⟩
  rw [Manager.onReply, hfound]
  exact Prod.ext rfl hout

/-- What a peer that replies at once does for somebody who asks: the answer comes at once, or the
issuer's reply brings it. -/
theorem ask_cases {m : Manager} (h : Settled m) (peer : Peer) (now : Instant) (q : Demand) :
    ∃ m' r, m.ask peer now q = (m', r) ∧ Settled m' ∧
      (m.step (.demand 0 q) = (m', [.bearer 0 r]) ∨
        ∃ next number draft, m.step (.demand 0 q) = (next, [.request number draft]) ∧
          next.step (.reply number (draft.send peer) now) = (m', [.bearer 0 r])) := by
  have hask : m.step (.demand 0 q) = m.onDemand 0 q := rfl
  unfold Manager.ask Manager.stepWith
  rw [hask, Manager.onDemand]
  cases q.answer? m.config m.slot with
  | some r => exact ⟨m, r, rfl, h, .inl rfl⟩
  | none =>
    simp only [Manager.joinRefresh]
    split
    next number hf => exact absurd hf (h.flight number)
    next => exact ⟨m, .error brokenOffFailure, rfl, h, .inl rfl⟩
    next hf =>
      split
      next c hc =>
        obtain ⟨m', r, hreply, hm'⟩ := onReply_startRefresh h 0 c
          ((m.config.refreshDraft c).send peer) now
        refine ⟨m', r, ?_, hm', .inr ⟨_, _, _, rfl, hreply⟩⟩
        have hsettle : (m.startRefresh 0 c).1.settle peer now (m.startRefresh 0 c).2 =
            (m', [.bearer 0 r]) := by
          show ((m.startRefresh 0 c).1.settle peer now
            [.request m.requests (m.config.refreshDraft c)]) = _
          simp only [Manager.settle, hreply, List.append_nil]
        rw [hsettle]
        rfl
      next => exact ⟨m, .error .notAuthenticated, rfl, h, .inl rfl⟩

/-- The caller asks, and the answer comes at once. -/
theorem Errand.ask_of_told {x : Errand} {k : Caller} {q : Demand} {m' : Manager}
    {r : Except Auth.Failure Bearer} {next : Except Auth.Failure Bearer → Dispatch}
    (h : x.manager.step (.demand k q) = (m', [.bearer k r])) :
    (x.ask k q next).manager = m' ∧ (x.ask k q next).stage = .about (next r) := by
  simp [Errand.ask, Errand.happen, h, told?]

/-- The caller asks, and a request goes to the issuer. -/
theorem Errand.ask_of_request {x : Errand} {k : Caller} {q : Demand} {m' : Manager} {number : Nat}
    {draft : Draft} {next : Except Auth.Failure Bearer → Dispatch}
    (h : x.manager.step (.demand k q) = (m', [.request number draft])) :
    (x.ask k q next).manager = m' ∧ (x.ask k q next).stage = .asking next := by
  simp [Errand.ask, Errand.happen, h, told?]

/-- The caller hears of the answer that it waits for. -/
theorem Errand.happen_of_told {x : Errand} {k : Caller} {e : Event} {m' : Manager}
    {r : Except Auth.Failure Bearer} {next : Except Auth.Failure Bearer → Dispatch}
    (hstage : x.stage = .asking next) (h : x.manager.step e = (m', [.bearer k r])) :
    (x.happen k e).manager = m' ∧ (x.happen k e).stage = .about (next r) := by
  simp [Errand.happen, hstage, h, told?]

/-- What a peer that replies at once answers to a demand can be heard in an errand. -/
theorem Errand.exists_run_ask {x : Errand} (h : Settled x.manager) (peer : Peer) {now : Instant}
    {q : Demand} {next : Except Auth.Failure Bearer → Dispatch}
    (hstep : x.step 0 (.onward now) = x.ask 0 q next) :
    Settled (x.manager.ask peer now q).1 ∧ ∃ os, (∀ q, .aside (.demand 0 q) ∉ os) ∧
      (x.run 0 os).manager = (x.manager.ask peer now q).1 ∧
      (x.run 0 os).stage = .about (next (x.manager.ask peer now q).2) := by
  obtain ⟨m', r, hask, hsettled, htold | ⟨waiting, number, draft, hrequest, hreply⟩⟩ :=
    ask_cases h peer now q
  · refine ⟨hask ▸ hsettled, [.onward now], by simp, ?_⟩
    rw [hask, Errand.run, List.foldl_cons, hstep]
    exact ask_of_told htold
  · have hrequested : (x.ask 0 q next).manager = waiting ∧ (x.ask 0 q next).stage = .asking next :=
      ask_of_request hrequest
    refine ⟨hask ▸ hsettled, [.onward now, .aside (.reply number (draft.send peer) now)],
      by simp, ?_⟩
    rw [hask, Errand.run, List.foldl_cons, hstep]
    rw [← hrequested.1] at hreply
    exact happen_of_told hrequested.2 hreply

/-- **What comes of a dispatch with a peer that replies at once comes of an errand too.** -/
theorem Dispatch.exists_run_eq (peer : Peer) (jitter : Rat) (d : Dispatch) {s : Session}
    (h : Settled s.manager) {x : Errand} (hmanager : x.manager = s.manager)
    (hstage : x.stage = .about d) :
    ∃ os, (∀ q, .aside (.demand 0 q) ∉ os) ∧
      (x.run 0 os).manager = (d.run peer jitter s).1.manager ∧
      (x.run 0 os).stage = .about (.done (d.run peer jitter s).2) := by
  induction d generalizing s x with
  | done r => exact ⟨[], by simp, hmanager, hstage⟩
  | bearer next ih =>
    have hstep : x.step 0 (.onward s.now) = x.ask 0 (.valid s.now) next := by
      simp only [Errand.step, hstage]
    obtain ⟨hsettled, os, halone, hmanager', hstage'⟩ :=
      Errand.exists_run_ask (hmanager ▸ h) peer hstep
    rw [hmanager] at hsettled hmanager' hstage'
    obtain ⟨ps, halone', hrun⟩ :=
      ih _ (s := (s.ask peer (.valid s.now)).1) hsettled hmanager' hstage'
    exact ⟨os ++ ps, by simp [halone, halone'], by rwa [Errand.run_append]⟩
  | otherBearer stale next ih =>
    have hstep : x.step 0 (.onward s.now) = x.ask 0 (.other stale) next := by
      simp only [Errand.step, hstage]
    obtain ⟨hsettled, os, halone, hmanager', hstage'⟩ :=
      Errand.exists_run_ask (hmanager ▸ h) peer hstep
    rw [hmanager] at hsettled hmanager' hstage'
    obtain ⟨ps, halone', hrun⟩ :=
      ih _ (s := (s.ask peer (.other stale)).1) hsettled hmanager' hstage'
    exact ⟨os ++ ps, by simp [halone, halone'], by rwa [Errand.run_append]⟩
  | post draft next ih =>
    obtain ⟨os, halone, hrun⟩ := ih (draft.send peer) h
      (x := (x.step 0 (.onward s.now)).step 0 (.answer (draft.send peer)))
      (by simp [Errand.step, hstage, hmanager]) (by simp [Errand.step, hstage])
    exact ⟨.onward s.now :: .answer (draft.send peer) :: os, by simpa using halone, hrun⟩
  | wait w next ih =>
    obtain ⟨os, halone, hrun⟩ := ih
      (s := { s.later (w.millis jitter) with waits := s.waits ++ [w.millis jitter] }) h
      (x := x.step 0 (.onward s.now)) (by simp [Errand.step, hstage, hmanager, Session.later])
      (by simp [Errand.step, hstage])
    exact ⟨.onward s.now :: os, by simpa using halone, hrun⟩

/-- So it is from the start, with a manager that nothing has happened to. -/
theorem Dispatch.exists_run_start (peer : Peer) (jitter : Rat) (d : Dispatch) {s : Session}
    (h : s.manager.AtRest) :
    ∃ os, (∀ q, .aside (.demand 0 q) ∉ os) ∧
      ((Errand.start s.manager d).run 0 os).manager = (d.run peer jitter s).1.manager ∧
      ((Errand.start s.manager d).run 0 os).stage = .about (.done (d.run peer jitter s).2) :=
  exists_run_eq peer jitter d (settled_of_atRest h) rfl rfl

end Courier.Client
