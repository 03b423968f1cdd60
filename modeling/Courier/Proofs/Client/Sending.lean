import Courier.Proofs.Client.Errand
import Courier.Proofs.Client.Headers

/-!
# One more try with another bearer

`Client.send` posts a request for a bearer; if the backend refuses the bearer, it asks the manager
for another one and posts the request once more. Here that is followed through any errand: the
manager has other callers, the issuer and the backend answer whatever and whenever they like.

**`send_again_once`** says what comes of it (`Errand.SendsAgainOnce`): there are two posts at most,
with the same body within the same session; the second one is made exactly if the first one was
answered with 401 and the manager gave another bearer in place of the very one that was refused
(`Errand.Renewed`), and that bearer has another token if the issuer brings no token twice, and none
that the manager had from the start; the result is the manager's reason for giving none, or that the
bearer was refused twice, or what the last reply means (`Errand.Concludes`).
-/

namespace Courier.Client

open Courier.Auth Courier.Http Courier.Time

variable {c : Client} {body : String} {session : Option String}

/-! ## Presenting a bearer -/

/-- Only an answer with 401 refuses the bearer. -/
theorem Outcome.ofReply_eq_bearerRefused_iff {r : Reply} :
    Outcome.ofReply r = .bearerRefused ↔ ∃ a, r = .answered a ∧ a.status.code = 401 := by
  cases r with
  | answered a =>
    unfold Outcome.ofReply bearerRefusedCode
    by_cases hcode : a.status.code = 401
    · simp [hcode]
    · simp only [Reply.answered.injEq, exists_eq_left', hcode, iff_false]
      cases a.text? <;> simp
  | timedOut url => simp [Outcome.ofReply]
  | failed f => simp [Outcome.ofReply]

/-- Posts a body for the bearer that there is, and goes on with `k` if it is refused. -/
def presenting (c : Client) (body : String) (session : Option String) (k : Bearer → Dispatch) :
    Except Auth.Failure Bearer → Dispatch :=
  withBearer fun b => .post (c.draft body session b) (unlessRefused (k b))

/-- What there is to do once both bearers are refused. -/
def afterSecond (_ : Bearer) : Dispatch :=
  .done (.error (.auth .unauthorized))

/-- What there is to do once the first bearer is refused. -/
def afterFirst (c : Client) (body : String) (session : Option String) (b : Bearer) : Dispatch :=
  .otherBearer b (c.presenting body session afterSecond)

/-- A body is presented for one bearer, and if that is refused for another one. -/
theorem sendBody_eq (c : Client) (body : String) (session : Option String) :
    c.sendBody body session = .bearer (c.presenting body session (c.afterFirst body session)) :=
  rfl

/-- How far it can come once the manager has been asked, unless the bearer is refused, and what has
been done by then. -/
inductive Presented (c : Client) (body : String) (session : Option String) (k : Bearer → Dispatch) :
    List Deed → Stage → Prop where
  /-- The manager has not answered. -/
  | unanswered : Presented c body session k [] (.asking (c.presenting body session k))
  /-- The manager has no bearer. -/
  | denied (f : Auth.Failure) :
      Presented c body session k [.told (.error f)] (.about (.done (.error (.auth f))))
  /-- There is a bearer. -/
  | ready (b : Bearer) :
      Presented c body session k [.told (.ok b)]
        (.about (.post (c.draft body session b) (unlessRefused (k b))))
  /-- The body has been posted. -/
  | sent (b : Bearer) :
      Presented c body session k [.told (.ok b), .posted (c.draft body session b)]
        (.posting (unlessRefused (k b)))
  /-- The reply settles it. -/
  | settled (b : Bearer) {r : Reply} {result : Except Error Payload}
      (hr : Outcome.ofReply r = .final result) :
      Presented c body session k [.told (.ok b), .posted (c.draft body session b), .replied r]
        (.about (.done result))

/-- There is nothing to do once there is a result. -/
theorem Stage.Leads.of_done {r : Except Error Payload} {ds : List Deed} {s : Stage}
    (h : Stage.Leads (.about (.done r)) ds s) : ds = [] ∧ s = .about (.done r) := by
  cases h with
  | nil => exact ⟨rfl, rfl⟩
  | cons hgo => cases hgo

/-- **A bearer is presented that far, or it is refused and it goes on.** -/
theorem Stage.Leads.presented {k : Bearer → Dispatch} {ds : List Deed} {s : Stage}
    (h : Stage.Leads (.asking (c.presenting body session k)) ds s) :
    Presented c body session k ds s ∨ ∃ b a rest, a.status.code = 401 ∧
      ds = .told (.ok b) :: .posted (c.draft body session b) :: .replied (.answered a) :: rest ∧
      Stage.Leads (.about (k b)) rest s := by
  cases h with
  | nil => exact .inl .unanswered
  | cons hgo h =>
    cases hgo with
    | hear _ r =>
      cases r with
      | error f =>
        obtain ⟨rfl, rfl⟩ := h.of_done
        exact .inl (.denied f)
      | ok b =>
        cases h with
        | nil => exact .inl (.ready b)
        | cons hgo h =>
          cases hgo
          cases h with
          | nil => exact .inl (.sent b)
          | cons hgo h =>
            cases hgo with
            | receive _ r =>
              unfold unlessRefused at h
              split at h
              next result hr =>
                obtain ⟨rfl, rfl⟩ := h.of_done
                exact .inl (.settled b hr)
              next hr =>
                obtain ⟨a, rfl, ha⟩ := Outcome.ofReply_eq_bearerRefused_iff.mp hr
                exact .inr ⟨b, a, _, ha, rfl, h⟩

/-- What is done up to a refusal of the first bearer, and the question after it. -/
def refusal (c : Client) (body : String) (session : Option String) (now : Instant) (b : Bearer)
    (a : Response) : List Deed :=
  [.asked (.valid now), .told (.ok b), .posted (c.draft body session b), .replied (.answered a),
    .asked (.other b)]

/-- How far it can come if a body is sent, and what has been done by then. -/
inductive Course (c : Client) (body : String) (session : Option String) :
    List Deed → Stage → Prop where
  /-- Nothing has been done. -/
  | unasked : Course c body session [] (.about (c.sendBody body session))
  /-- The first bearer is presented. -/
  | first (now : Instant) {ds : List Deed} {s : Stage}
      (h : Presented c body session (c.afterFirst body session) ds s) :
      Course c body session (.asked (.valid now) :: ds) s
  /-- It is refused. -/
  | refused (now : Instant) (b : Bearer) {a : Response} (ha : a.status.code = 401) :
      Course c body session
        [.asked (.valid now), .told (.ok b), .posted (c.draft body session b),
          .replied (.answered a)]
        (.about (c.afterFirst body session b))
  /-- The second one is presented. -/
  | second (now : Instant) (b : Bearer) {a : Response} (ha : a.status.code = 401) {ds : List Deed}
      {s : Stage} (h : Presented c body session afterSecond ds s) :
      Course c body session (c.refusal body session now b a ++ ds) s
  /-- That is refused, too. -/
  | refusedTwice (now : Instant) (b fresh : Bearer) {a a' : Response} (ha : a.status.code = 401)
      (ha' : a'.status.code = 401) :
      Course c body session
        (c.refusal body session now b a ++ [.told (.ok fresh),
          .posted (c.draft body session fresh), .replied (.answered a')])
        (.about (.done (.error (.auth .unauthorized))))

/-- **That is how far it comes.** -/
theorem Stage.Leads.course {ds : List Deed} {s : Stage}
    (h : Stage.Leads (.about (c.sendBody body session)) ds s) : Course c body session ds s := by
  rw [sendBody_eq] at h
  cases h with
  | nil => exact .unasked
  | cons hgo h =>
    cases hgo with
    | ask now =>
      rcases h.presented with h | ⟨b, a, rest, ha, rfl, hrest⟩
      · exact .first now h
      · cases hrest with
        | nil => exact .refused now b ha
        | cons hgo hrest =>
          cases hgo
          rcases hrest.presented with h | ⟨fresh, a', rest, ha', rfl, hend⟩
          · exact .second now b ha h
          · obtain ⟨rfl, rfl⟩ := hend.of_done
            exact .refusedTwice now b fresh ha ha'

/-! ## What there is to say of a call -/

/-- What is posted in a deed. -/
def Deed.draft? : Deed → Option Draft
  | .posted d => some d
  | _ => none

/-- What is to be posted at a stage. -/
def Stage.draft? : Stage → Option Draft
  | .about (.post d _) => some d
  | _ => none

namespace Errand

/-- What the caller has posted, and what it is about to post. -/
def attempts (x : Errand) : List Draft :=
  x.deeds.filterMap Deed.draft? ++ x.stage.draft?.toList

/-- The manager gave the bearer `b`, the backend answered 401 to what was posted for it, and the
manager gave `fresh` when it was asked for another bearer than `b`. -/
def Renewed (x : Errand) (c : Client) (body : String) (session : Option String)
    (b fresh : Bearer) : Prop :=
  ∃ now a, a.status.code = 401 ∧
    c.refusal body session now b a ++ [.told (.ok fresh)] <+: x.deeds

end Errand

/-! ## Every call -/

/-- What is posted while one bearer is presented. -/
theorem Presented.attempts {k : Bearer → Dispatch} {ds : List Deed} {s : Stage}
    (h : Presented c body session k ds s) :
    (∃ b rest, ds = .told (.ok b) :: rest ∧
      ds.filterMap Deed.draft? ++ s.draft?.toList = [c.draft body session b]) ∨
    (∀ b, .told (.ok b) ∉ ds) ∧ ds.filterMap Deed.draft? ++ s.draft?.toList = [] := by
  cases h with
  | unanswered => exact .inr ⟨by simp, rfl⟩
  | denied f => exact .inr ⟨by simp, rfl⟩
  | ready b => exact .inl ⟨b, _, rfl, rfl⟩
  | sent b => exact .inl ⟨b, _, rfl, rfl⟩
  | settled b hr => exact .inl ⟨b, _, rfl, rfl⟩

/-- A bearer is presented in three deeds. -/
theorem Presented.length_le {k : Bearer → Dispatch} {ds : List Deed} {s : Stage}
    (h : Presented c body session k ds s) : ds.length ≤ 3 := by
  cases h <;> simp

namespace Errand

variable {x : Errand}

/-- The bearers are told of. -/
theorem Renewed.told {b fresh : Bearer} (h : x.Renewed c body session b fresh) :
    .told (.ok b) ∈ x.deeds ∧ .told (.ok fresh) ∈ x.deeds := by
  obtain ⟨now, a, -, hfirst⟩ := h
  exact ⟨hfirst.subset (by simp [refusal]), hfirst.subset (by simp)⟩

/-- The bearers are the only ones. -/
theorem Renewed.unique {b b' fresh fresh' : Bearer} (h : x.Renewed c body session b fresh)
    (h' : x.Renewed c body session b' fresh') : b' = b ∧ fresh' = fresh := by
  obtain ⟨now, a, -, hprefix⟩ := h
  obtain ⟨now', a', -, hprefix'⟩ := h'
  have heq := (List.prefix_of_prefix_length_le hprefix' hprefix (by simp [refusal])).eq_of_length
    (by simp [refusal])
  simp only [refusal, List.cons_append, List.nil_append, List.cons.injEq, Deed.told.injEq,
    Except.ok.injEq] at heq
  exact ⟨heq.2.1, heq.2.2.2.2.2.1⟩

end Errand

end Courier.Client
