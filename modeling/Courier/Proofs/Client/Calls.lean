import Courier.Proofs.Client.Sending

/-!
# Calls

A `Call` is a way through a dispatch to its end: what is done, and what comes of it. What the others
answer is in it, so a statement about all calls of a dispatch is about all that they might answer,
and when. Whoever has carried out a dispatch has made a call of it (`Errand.Sound.call`).

A call of two dispatches one after the other is a call of the one and then a call of the other
(`Call.of_andThen_iff`), as the stages of the first are followed until there is a result
(`Stage.Leads.exists_of_andThen`). A request that is sent without further tries begins to be sent
once, and there is no wait (`Call.Of.sends_eq`).
-/

namespace Courier.Client

open Courier.Auth Courier.Http Courier.Time

/-! ## One dispatch after another -/

/-- What is done first, and what is done then. -/
theorem Stage.Leads.append {s t u : Stage} {ds es : List Deed} (h : s.Leads ds t)
    (h' : t.Leads es u) : s.Leads (ds ++ es) u := by
  induction h with
  | nil => exact h'
  | cons hgo hrest ih => exact .cons hgo (ih h')

/-- A stage of a dispatch that is gone on with. -/
def Stage.andThen (k : Except Error Payload → Dispatch) : Stage → Stage
  | .about d => .about (d.andThen k)
  | .asking next => .asking fun r => (next r).andThen k
  | .posting next => .posting fun r => (next r).andThen k

variable {k : Except Error Payload → Dispatch} {s t : Stage} {ds : List Deed}

/-- What can be done is done before going on. -/
theorem Stage.Goes.andThen {a : Deed} (h : s.Goes a t) : (s.andThen k).Goes a (t.andThen k) := by
  cases h with
  | ask now next => exact .ask now _
  | askOther stale next => exact .askOther stale _
  | hear next r => exact .hear _ r
  | post d next => exact .post d _
  | receive next r => exact .receive _ r
  | wait w next => exact .wait w _

/-- Nothing else is done, unless there is a result. -/
theorem Stage.Goes.exists_of_andThen {a : Deed} (h : (s.andThen k).Goes a t) :
    (∃ r, s = .about (.done r)) ∨ ∃ u, s.Goes a u ∧ t = u.andThen k := by
  cases s with
  | about d =>
    cases d with
    | done r => exact .inl ⟨r, rfl⟩
    | bearer next => cases h with | ask now => exact .inr ⟨_, .ask now next, rfl⟩
    | otherBearer stale next => cases h; exact .inr ⟨_, .askOther stale next, rfl⟩
    | post d next => cases h; exact .inr ⟨_, .post d next, rfl⟩
    | wait w next => cases h; exact .inr ⟨_, .wait w next, rfl⟩
  | asking next => cases h with | hear _ r => exact .inr ⟨_, .hear next r, rfl⟩
  | posting next => cases h with | receive _ r => exact .inr ⟨_, .receive next r, rfl⟩

/-- A way through a stage is one through the stage with more to come. -/
theorem Stage.Leads.andThen (h : s.Leads ds t) : (s.andThen k).Leads ds (t.andThen k) := by
  induction h with
  | nil s => exact .nil _
  | cons hgo _ ih => exact .cons hgo.andThen ih

/-- It is only at its end if there is a result to go on with. -/
theorem Stage.exists_of_andThen_eq {r : Except Error Payload}
    (h : s.andThen k = .about (.done r)) : ∃ r, s = .about (.done r) := by
  cases s with
  | about d =>
    cases d with
    | done r => exact ⟨r, rfl⟩
    | _ => cases h
  | _ => cases h

/-- **Who is at the end of two dispatches has been at the end of the one, and gone on.** -/
theorem Stage.Leads.exists_of_andThen {r : Except Error Payload}
    (h : (s.andThen k).Leads ds (.about (.done r))) :
    ∃ ds₁ r₁ ds₂, ds = ds₁ ++ ds₂ ∧ s.Leads ds₁ (.about (.done r₁)) ∧
      Stage.Leads (.about (k r₁)) ds₂ (.about (.done r)) := by
  -- The stages are followed one by one, until there is a result.
  induction ds generalizing s with
  | nil =>
    generalize hs : s.andThen k = s' at h
    cases h
    obtain ⟨r₁, rfl⟩ := exists_of_andThen_eq hs
    exact ⟨[], r₁, [], rfl, .nil _, hs ▸ .nil _⟩
  | cons a ds ih =>
    cases h with
    | cons hgo hrest =>
      rcases hgo.exists_of_andThen with ⟨r₁, rfl⟩ | ⟨u, hu, rfl⟩
      · exact ⟨[], r₁, a :: ds, rfl, .nil _, .cons hgo hrest⟩
      · obtain ⟨ds₁, r₁, ds₂, rfl, hfirst, hsecond⟩ := ih hrest
        exact ⟨a :: ds₁, r₁, ds₂, rfl, .cons hu hfirst, hsecond⟩

/-! ## Calls -/

/-- A way through a dispatch to its end. -/
structure Call where
  /-- What is done. -/
  deeds : List Deed
  /-- What comes of it. -/
  result : Except Error Payload

/-- A call can go this way through a dispatch. -/
def Call.Of (x : Call) (d : Dispatch) : Prop :=
  Stage.Leads (.about d) x.deeds (.about (.done x.result))

/-- The call `y` after the deeds `ds`. -/
def Call.after (ds : List Deed) (y : Call) : Call :=
  ⟨ds ++ y.deeds, y.result⟩

/-- A dispatch that is done has one call, in which nothing is done. -/
theorem Call.of_done_iff {x : Call} {r : Except Error Payload} :
    x.Of (.done r) ↔ x = ⟨[], r⟩ := by
  obtain ⟨ds, r'⟩ := x
  constructor
  · intro h
    obtain ⟨rfl, hstage⟩ := Stage.Leads.of_done h
    cases hstage
    rfl
  · rintro ⟨⟩
    exact .nil _

/-- A dispatch that waits has the calls of what comes after the wait, each with the wait in front.
-/
theorem Call.of_wait_iff {x : Call} {w : Wait} {d : Dispatch} :
    x.Of (.wait w d) ↔ ∃ y : Call, y.Of d ∧ x = y.after [.waited w] := by
  obtain ⟨ds, r⟩ := x
  constructor
  · intro h
    cases h with
    | cons hgo hrest => cases hgo; exact ⟨⟨_, r⟩, hrest, rfl⟩
  · rintro ⟨y, hy, ⟨⟩⟩
    exact .cons (.wait w d) hy

/-- **A call of two dispatches is a call of the one and then a call of the other.** -/
theorem Call.of_andThen_iff {d : Dispatch} {x : Call} :
    x.Of (d.andThen k) ↔
      ∃ first second : Call, first.Of d ∧ second.Of (k first.result) ∧
        x = second.after first.deeds := by
  obtain ⟨ds, r⟩ := x
  constructor
  · intro h
    obtain ⟨ds₁, r₁, ds₂, rfl, hfirst, hsecond⟩ := Stage.Leads.exists_of_andThen (s := .about d) h
    exact ⟨⟨ds₁, r₁⟩, ⟨ds₂, r⟩, hfirst, hsecond, rfl⟩
  · rintro ⟨first, second, hfirst, hsecond, ⟨⟩⟩
    exact hfirst.andThen.append hsecond

/-- Whoever has carried out a dispatch has made a call of it. -/
theorem Errand.Sound.call {m : Manager} {d : Dispatch} {e : Errand} (h : Sound m d e)
    {r : Except Error Payload} (hr : e.stage = .about (.done r)) : (⟨e.deeds, r⟩ : Call).Of d := by
  unfold Call.Of
  rw [← hr]
  exact h.leads

/-! ## What is sent and waited for -/

variable {c : Client} {request : Wire.Request} {session : Option String}

/-- A request begins to be sent: for a bearer, which may turn out to be refused. -/
def Deed.begins : Deed → Bool
  | .asked (.valid _) => true
  | _ => false

/-- What is waited for in a deed. -/
def Deed.wait? : Deed → Option Wait
  | .waited w => some w
  | _ => none

/-- How often a request is sent, with a second bearer or without. -/
def Call.sends (x : Call) : Nat :=
  x.deeds.countP Deed.begins

/-- What is waited for. -/
def Call.waits (x : Call) : List Wait :=
  x.deeds.filterMap Deed.wait?

/-- A request without further tries is sent once, and there is no wait. -/
theorem Call.Of.sends_eq {x : Call} (h : x.Of (c.send request session)) :
    x.sends = 1 ∧ x.waits = [] := by
  obtain ⟨ds, r⟩ := x
  have hcourse : Course c request.encode.render session ds (.about (.done r)) := h.course
  cases hcourse with
  | first now h => cases h <;> exact ⟨rfl, rfl⟩
  | second now b ha h => cases h <;> exact ⟨rfl, rfl⟩
  | refusedTwice now b fresh ha ha' => exact ⟨rfl, rfl⟩

/-- What is done before a call adds its own sends. -/
theorem Call.sends_after (ds : List Deed) (x : Call) :
    (x.after ds).sends = ds.countP Deed.begins + x.sends :=
  List.countP_append

/-- What is done before a call adds its own waits. -/
theorem Call.waits_after (ds : List Deed) (x : Call) :
    (x.after ds).waits = ds.filterMap Deed.wait? ++ x.waits :=
  List.filterMap_append

/-- A call that is over with the first reply can go this way. -/
theorem Call.of_settled (now : Instant) (b : Bearer) {r : Reply} {result : Except Error Payload}
    (hr : Outcome.ofReply r = .final result) :
    (⟨[.asked (.valid now), .told (.ok b),
        .posted (c.draft request.encode.render session b), .replied r], result⟩ : Call).Of
      (c.send request session) := by
  refine .cons (.ask now _) (.cons (.hear _ (.ok b)) (.cons (.post _ _) (.cons (.receive _ r) ?_)))
  show Stage.Leads (.about (unlessRefused _ r)) [] _
  unfold unlessRefused
  rw [hr]
  exact .nil _

end Courier.Client
