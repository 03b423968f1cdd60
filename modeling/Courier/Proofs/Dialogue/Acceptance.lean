import Courier.Proofs.Dialogue.History

/-!
# Which turns a conversation accepts

A conversation judges a turn by the ids that it has kept of its calls, not by its turns, and it
takes the id of a call before it knows that the call may be made. That this comes out right is the
matter of this file:

* A conversation is `Sound` if its history is well formed and the ids are those of its calls. A turn
  that breaks a rule then leaves everything as it was (`Sound.add_of_breaks`), and any other turn
  leaves a sound conversation with one more turn (`Sound.add_of_wellFormed`).
* `c.attempts ts` is what attempts to add turns leave, however many of them fail. It is sound
  whenever `c` is (`Sound.attempts`).
* **`attempts_exact`**: what can be added are exactly the turns that leave the history well formed,
  and the conversations that can be made of turns in a row are exactly those of well-formed turns.
-/

namespace Courier.Dialogue

namespace Conversation

variable {c : Conversation} {t : Turn}

/-! ## Adding in place -/

/-- An id is taken if it was free. -/
theorem takeCallId_eq (callId : String) (c : Conversation) :
    takeCallId callId c =
      if c.callIds.contains callId then .ok false c
      else .ok true { c with callIds := callId :: c.callIds } := by
  change (if c.callIds.contains callId = true then _ else _ : EStateM _ _ _) c = _
  cases c.callIds.contains callId <;> rfl

/-- A system turn is added if all turns so far are system turns. -/
theorem add_system_eq (text : String) (c : Conversation) :
    add (.system text) c =
      if c.turns.all Turn.isSystem then .ok () { c with turns := c.turns ++ [.system text] }
      else .error .lateSystem c := by
  change (if (!c.turns.all Turn.isSystem) = true then _ else _ : EStateM _ _ _) c = _
  cases c.turns.all Turn.isSystem <;> rfl

/-- A call is added if its id was free, and the id with it. -/
theorem add_toolCall_eq (callId name arguments : String) (c : Conversation) :
    add (.toolCall callId name arguments) c =
      if c.callIds.contains callId then .error (.repeatedCall callId) c
      else .ok () { c with
        turns := c.turns ++ [.toolCall callId name arguments]
        callIds := callId :: c.callIds } := by
  change EStateM.bind (takeCallId callId) _ c = _
  rw [EStateM.bind, takeCallId_eq]
  cases c.callIds.contains callId <;> rfl

/-- A result is added if the id that it names is taken. -/
theorem add_toolResult_eq (callId : String) (output : ToolOutput) (c : Conversation) :
    add (.toolResult callId output) c =
      if c.callIds.contains callId then
        .ok () { c with turns := c.turns ++ [.toolResult callId output] }
      else .error (.unknownCall callId) c := by
  change (if (!c.callIds.contains callId) = true then _ else _ : EStateM _ _ _) c = _
  cases c.callIds.contains callId <;> rfl

/-! ## Sound conversations -/

/-- The history is well formed, and the ids that are kept are those of its calls. -/
structure Sound (c : Conversation) : Prop where
  wellFormed : WellFormed c.turns
  callIds : ∀ callId, callId ∈ c.callIds ↔ callId ∈ madeCalls c.turns

/-- A conversation without turns is sound. -/
theorem sound_new (id : String) : (new id).Sound where
  wellFormed := wellFormed_nil
  callIds _ := Iff.rfl

/-- The ids that are kept tell whether a call was made. -/
theorem Sound.contains_iff (h : c.Sound) {callId : String} :
    c.callIds.contains callId = true ↔ callId ∈ madeCalls c.turns :=
  List.contains_iff_mem.trans (h.callIds callId)

/-- **A turn that breaks a rule leaves a conversation as it was.** -/
theorem Sound.add_of_breaks (h : c.Sound) {v : Violation} (hb : Breaks c.turns t v) :
    add t c = .error v c := by
  cases hb with
  | lateSystem hlate =>
    obtain ⟨s, hs, hkind⟩ := hlate
    rw [add_system_eq, if_neg]
    intro hall
    rw [List.all_eq_true.mp hall s hs] at hkind
    cases hkind
  | repeatedCall hmade => rw [add_toolCall_eq, if_pos (h.contains_iff.mpr hmade)]
  | unknownCall hmade => rw [add_toolResult_eq, if_neg (mt h.contains_iff.mp hmade)]

/-- **A turn that breaks no rule is added**, and the conversation stays sound. -/
theorem Sound.add_of_wellFormed (h : c.Sound) (hw : WellFormed (c.turns ++ [t])) :
    ∃ callIds, add t c = .ok () ⟨c.id, c.turns ++ [t], callIds⟩ ∧
      Sound ⟨c.id, c.turns ++ [t], callIds⟩ := by
  have hbreaks := (wellFormed_append_iff.mp hw).2
  -- Only a call adds to the calls, and so to the ids.
  have hsame : t.madeCall? = none → Sound ⟨c.id, c.turns ++ [t], c.callIds⟩ := by
    intro hnone
    refine ⟨hw, ?_⟩
    simpa [hnone] using h.callIds
  cases t with
  | system text =>
    refine ⟨c.callIds, ?_, hsame rfl⟩
    rw [add_system_eq, if_pos]
    rw [List.all_eq_true]
    intro s hs
    by_cases hkind : s.isSystem = true
    · exact hkind
    · exact absurd (.lateSystem ⟨s, hs, by simpa using hkind⟩) (hbreaks .lateSystem)
  | toolCall callId name arguments =>
    refine ⟨callId :: c.callIds, ?_, hw, ?_⟩
    · rw [add_toolCall_eq, if_neg]
      intro hmade
      exact hbreaks _ (.repeatedCall (h.contains_iff.mp hmade))
    · intro k
      simp [Turn.madeCall?, h.callIds, or_comm]
  | toolResult callId output =>
    refine ⟨c.callIds, ?_, hsame rfl⟩
    rw [add_toolResult_eq, if_pos]
    by_cases hmade : c.callIds.contains callId = true
    · exact hmade
    · exact absurd (.unknownCall (mt h.contains_iff.mpr hmade)) (hbreaks _)
  | user text => exact ⟨c.callIds, rfl, hsame rfl⟩
  | assistant text => exact ⟨c.callIds, rfl, hsame rfl⟩
  | reasoning id content encrypted => exact ⟨c.callIds, rfl, hsame rfl⟩

/-- A turn breaks a rule of a sound conversation, or leaves its history well formed. -/
theorem Sound.breaks_or (h : c.Sound) (t : Turn) :
    (∃ v, Breaks c.turns t v) ∨ WellFormed (c.turns ++ [t]) := by
  by_cases hw : WellFormed (c.turns ++ [t])
  · exact .inr hw
  · refine .inl (Classical.not_forall_not.mp ?_)
    intro hbreaks
    exact hw (wellFormed_append_iff.mpr ⟨h.wellFormed, hbreaks⟩)

/-! ## Attempts -/

/-- What an attempt to add a turn leaves, whether it succeeds or not. -/
def tried (c : Conversation) (t : Turn) : Conversation :=
  match add t c with
  | .ok _ left => left
  | .error _ left => left

/-- What attempts to add turns leave, one after the other. -/
def attempts (c : Conversation) (ts : List Turn) : Conversation :=
  ts.foldl tried c

/-- A turn that breaks a rule might as well not have been tried. -/
theorem Sound.tried_of_breaks (h : c.Sound) {v : Violation} (hb : Breaks c.turns t v) :
    c.tried t = c := by
  rw [tried, h.add_of_breaks hb]

/-- A turn that breaks no rule is the last one from then on. -/
theorem Sound.tried_of_wellFormed (h : c.Sound) (hw : WellFormed (c.turns ++ [t])) :
    (c.tried t).Sound ∧ (c.tried t).id = c.id ∧ (c.tried t).turns = c.turns ++ [t] := by
  obtain ⟨callIds, hadd, hsound⟩ := h.add_of_wellFormed hw
  rw [tried, hadd]
  exact ⟨hsound, rfl, rfl⟩

/-- **An attempt leaves a sound conversation with the same id.** -/
theorem Sound.tried (h : c.Sound) (t : Turn) : (c.tried t).Sound ∧ (c.tried t).id = c.id := by
  rcases h.breaks_or t with ⟨v, hb⟩ | hw
  · rw [h.tried_of_breaks hb]
    exact ⟨h, rfl⟩
  · obtain ⟨hsound, hid, -⟩ := h.tried_of_wellFormed hw
    exact ⟨hsound, hid⟩

/-- **So do any attempts.** -/
theorem Sound.attempts (h : c.Sound) (ts : List Turn) :
    (c.attempts ts).Sound ∧ (c.attempts ts).id = c.id := by
  induction ts generalizing c with
  | nil => exact ⟨h, rfl⟩
  | cons t ts ih =>
    obtain ⟨hsound, hid⟩ := h.tried t
    obtain ⟨hrest, hid'⟩ := ih hsound
    exact ⟨hrest, hid'.trans hid⟩

/-- **Attempts only add turns at the end.** -/
theorem Sound.prefix_attempts (h : c.Sound) (ts : List Turn) :
    c.turns <+: (c.attempts ts).turns := by
  induction ts generalizing c with
  | nil => exact List.prefix_refl _
  | cons t ts ih =>
    have hfirst : c.turns <+: (c.tried t).turns := by
      rcases h.breaks_or t with ⟨v, hb⟩ | hw
      · exact (h.tried_of_breaks hb).symm ▸ List.prefix_refl c.turns
      · exact (h.tried_of_wellFormed hw).2.2.symm ▸ List.prefix_append c.turns [t]
    exact hfirst.trans (ih (h.tried t).1)

/-! ## Turns in a row -/

/-- A turn that leaves a history well formed makes a longer conversation. -/
theorem Sound.append_of_wellFormed (h : c.Sound) (hw : WellFormed (c.turns ++ [t])) :
    c.append t = .ok (c.tried t) := by
  obtain ⟨callIds, hadd, -⟩ := h.add_of_wellFormed hw
  rw [append, Conversation.tried, hadd]

/-- A turn that breaks a rule makes none. -/
theorem Sound.append_of_breaks (h : c.Sound) {v : Violation} (hb : Breaks c.turns t v) :
    c.append t = .error v := by
  rw [append, h.add_of_breaks hb]

/-- Attempts with turns that leave the history well formed add them all. -/
theorem Sound.turns_attempts (h : c.Sound) {ts : List Turn} (hw : WellFormed (c.turns ++ ts)) :
    (c.attempts ts).turns = c.turns ++ ts := by
  induction ts generalizing c with
  | nil => exact (List.append_nil c.turns).symm
  | cons t ts ih =>
    rw [List.append_cons] at hw ⊢
    obtain ⟨hsound, -, hturns⟩ := h.tried_of_wellFormed hw.of_append
    rw [← hturns] at hw ⊢
    exact ih hsound hw

/-- **Turns in a row make a conversation if and only if they leave the history well formed.** -/
theorem Sound.foldlM_eq_ok_iff (h : c.Sound) {ts : List Turn} {grown : Conversation} :
    ts.foldlM append c = .ok grown ↔ WellFormed (c.turns ++ ts) ∧ grown = c.attempts ts := by
  induction ts generalizing c with
  | nil =>
    rw [List.append_nil, and_iff_right h.wellFormed]
    constructor
    · intro heq
      cases heq
      rfl
    · rintro rfl
      rfl
  | cons t ts ih =>
    rw [List.foldlM_cons, List.append_cons]
    rcases h.breaks_or t with ⟨v, hb⟩ | hw
    · rw [h.append_of_breaks hb]
      constructor
      · intro heq
        cases heq
      · rintro ⟨hw, -⟩
        exact absurd hw.of_append hb.not_wellFormed
    · obtain ⟨hsound, -, hturns⟩ := h.tried_of_wellFormed hw
      rw [h.append_of_wellFormed hw, ← hturns]
      exact ih hsound

/-- **Turns in a row make no conversation if and only if one of them breaks a rule** after those
before it, which break none. -/
theorem Sound.foldlM_eq_error_iff (h : c.Sound) {ts : List Turn} {v : Violation} :
    ts.foldlM append c = .error v ↔
      ∃ before t later, ts = before ++ t :: later ∧ WellFormed (c.turns ++ before) ∧
        Breaks (c.turns ++ before) t v := by
  induction ts generalizing c with
  | nil =>
    constructor
    · intro heq
      cases heq
    · rintro ⟨before, t, later, heq, -⟩
      simp at heq
  | cons t ts ih =>
    rw [List.foldlM_cons]
    rcases h.breaks_or t with ⟨w, hb⟩ | hw
    · rw [h.append_of_breaks hb]
      constructor
      · intro heq
        cases heq
        exact ⟨[], t, ts, rfl, by simpa using h.wellFormed, by simpa using hb⟩
      · rintro ⟨before, u, later, heq, hbefore, hu⟩
        cases before with
        | nil =>
          obtain ⟨rfl, rfl⟩ := List.cons.inj heq
          rw [List.append_nil] at hu
          rw [hb.unique hu]
          rfl
        | cons s before =>
          obtain ⟨rfl, rfl⟩ := List.cons.inj heq
          rw [List.append_cons] at hbefore
          exact absurd hbefore.of_append hb.not_wellFormed
    · obtain ⟨hsound, -, hturns⟩ := h.tried_of_wellFormed hw
      rw [h.append_of_wellFormed hw]
      refine (ih hsound).trans ?_
      rw [hturns]
      constructor
      · rintro ⟨before, u, later, rfl, hbefore, hu⟩
        rw [← List.append_cons] at hbefore hu
        exact ⟨t :: before, u, later, rfl, hbefore, hu⟩
      · rintro ⟨before, u, later, heq, hbefore, hu⟩
        cases before with
        | nil =>
          obtain ⟨rfl, rfl⟩ := List.cons.inj heq
          rw [List.append_nil] at hu
          exact absurd hw hu.not_wellFormed
        | cons s before =>
          obtain ⟨rfl, rfl⟩ := List.cons.inj heq
          rw [List.append_cons] at hbefore hu
          exact ⟨before, u, later, rfl, hbefore, hu⟩

/-! ## Exactness -/

/-- A conversation takes the turns that leave its history well formed, and no others. -/
structure Exact (c : Conversation) : Prop where
  /-- The history is well formed. -/
  wellFormed : WellFormed c.turns
  /-- The ids that are kept are those of its calls. -/
  callIds : ∀ callId, callId ∈ c.callIds ↔ callId ∈ madeCalls c.turns
  /-- A turn can be added if and only if the history stays well formed with it. -/
  accepts : ∀ t, (∃ grown, add t c = .ok () grown) ↔ WellFormed (c.turns ++ [t])
  /-- A turn that is added is the last one from then on, and nothing else changes. -/
  grows : ∀ t grown, add t c = .ok () grown → grown.id = c.id ∧ grown.turns = c.turns ++ [t]
  /-- A turn that is refused breaks the rule that is reported, and nothing changes. -/
  refuses : ∀ t v left, add t c = .error v left → Breaks c.turns t v ∧ left = c
  /-- What is added later is added as if the refused turn had never been tried. -/
  forgets : ∀ t v left, add t c = .error v left → ∀ ts, c.attempts (t :: ts) = c.attempts ts
  /-- A snapshot holds turns that make a conversation of their own. -/
  snapshots : ∀ upto id, ∃ part, ofTurns id (c.snapshot upto).turns = .ok part

/-- A sound conversation is exact. -/
theorem Sound.exact (h : c.Sound) : c.Exact := by
  have hrefuses : ∀ t v left, add t c = .error v left → Breaks c.turns t v ∧ left = c := by
    intro t v left hadd
    rcases h.breaks_or t with ⟨w, hb⟩ | hw
    · rw [h.add_of_breaks hb] at hadd
      cases hadd
      exact ⟨hb, rfl⟩
    · obtain ⟨callIds, hok, -⟩ := h.add_of_wellFormed hw
      rw [hok] at hadd
      cases hadd
  have hgrows : ∀ t grown, add t c = .ok () grown →
      WellFormed (c.turns ++ [t]) ∧ grown.id = c.id ∧ grown.turns = c.turns ++ [t] := by
    intro t grown hadd
    rcases h.breaks_or t with ⟨w, hb⟩ | hw
    · rw [h.add_of_breaks hb] at hadd
      cases hadd
    · obtain ⟨callIds, hok, -⟩ := h.add_of_wellFormed hw
      rw [hok] at hadd
      cases hadd
      exact ⟨hw, rfl, rfl⟩
  constructor
  case wellFormed => exact h.wellFormed
  case callIds => exact h.callIds
  case accepts =>
    intro t
    constructor
    · rintro ⟨grown, hadd⟩
      exact (hgrows t grown hadd).1
    · intro hw
      obtain ⟨callIds, hok, -⟩ := h.add_of_wellFormed hw
      exact ⟨_, hok⟩
  case grows =>
    intro t grown hadd
    exact (hgrows t grown hadd).2
  case refuses => exact hrefuses
  case forgets =>
    intro t v left hadd ts
    have hb := (hrefuses t v left hadd).1
    change (c.tried t).attempts ts = _
    rw [h.tried_of_breaks hb]
  case snapshots =>
    intro upto id
    refine ⟨_, (sound_new id).foldlM_eq_ok_iff.mpr ⟨?_, rfl⟩⟩
    exact h.wellFormed.take _

/-- **Exactly the well-formed histories can be had.** Whatever turns are tried on a conversation, it
stays exact. Turns in a row make a conversation if and only if they are well formed; otherwise what
is reported is the rule that is broken by the first turn with which they no longer are. -/
theorem attempts_exact (id : String) :
    (∀ ts, ((new id).attempts ts).Exact ∧ ((new id).attempts ts).id = id) ∧
      (∀ ts, (∃ c, ofTurns id ts = .ok c) ↔ WellFormed ts) ∧
      (∀ ts c, ofTurns id ts = .ok c → c = (new id).attempts ts ∧ c.turns = ts) ∧
      ∀ ts v, ofTurns id ts = .error v ↔
        ∃ before t later, ts = before ++ t :: later ∧ WellFormed before ∧
          ¬ WellFormed (before ++ [t]) ∧ Breaks before t v := by
  have hnew := sound_new id
  refine ⟨?_, ?_, ?_, ?_⟩
  · intro ts
    obtain ⟨hsound, hid⟩ := hnew.attempts ts
    exact ⟨hsound.exact, hid⟩
  · intro ts
    constructor
    · rintro ⟨c, hc⟩
      exact (hnew.foldlM_eq_ok_iff.mp hc).1
    · intro hw
      exact ⟨_, hnew.foldlM_eq_ok_iff.mpr ⟨hw, rfl⟩⟩
  · intro ts c hc
    obtain ⟨hw, rfl⟩ := hnew.foldlM_eq_ok_iff.mp hc
    exact ⟨rfl, hnew.turns_attempts hw⟩
  · intro ts v
    refine hnew.foldlM_eq_error_iff.trans ?_
    constructor
    · rintro ⟨before, t, later, heq, hbefore, hb⟩
      exact ⟨before, t, later, heq, hbefore, hb.not_wellFormed, hb⟩
    · rintro ⟨before, t, later, heq, hbefore, -, hb⟩
      exact ⟨before, t, later, heq, hbefore, hb⟩

end Conversation

end Courier.Dialogue
