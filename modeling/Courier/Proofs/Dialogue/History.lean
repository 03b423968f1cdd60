import Courier.Dialogue.Conversation

/-!
# Well-formed histories

Not every list of turns is a history. `WellFormed` says which ones are, of the list as a whole and
without any conversation: system turns come first, calls have distinct ids, and a result names a
call before it. What a well-formed history begins with is a well-formed history
(`WellFormed.of_append`).

`Breaks turns t v` says that the turn `t` breaks the rule `v` when it comes after `turns`. These are
the two sides of one thing: a history stays well formed with one more turn exactly if the turn
breaks no rule (`wellFormed_append_iff`).
-/

namespace Courier.Dialogue

/-- The ids of the calls among some turns. -/
def madeCalls (turns : List Turn) : List String :=
  turns.filterMap Turn.madeCall?

/-- The calls of two lists in a row are those of the one, then those of the other. -/
@[simp] theorem madeCalls_append (ts us : List Turn) :
    madeCalls (ts ++ us) = madeCalls ts ++ madeCalls us :=
  List.filterMap_append

/-- One turn makes the call that it is, if it is one. -/
@[simp] theorem madeCalls_singleton (t : Turn) : madeCalls [t] = t.madeCall?.toList := by
  cases t <;> rfl

/-- Turns that can be the history of a conversation. -/
structure WellFormed (turns : List Turn) : Prop where
  /-- Whatever stands before a system turn is one, too. -/
  system : ∀ before text later, turns = before ++ .system text :: later →
    ∀ t ∈ before, t.isSystem = true
  /-- The ids of the calls are distinct. -/
  calls : (madeCalls turns).Nodup
  /-- A result names a call before it. -/
  results : ∀ before callId output later, turns = before ++ .toolResult callId output :: later →
    callId ∈ madeCalls before

/-- A turn breaks a rule when it comes after some others. -/
inductive Breaks (turns : List Turn) : Turn → Violation → Prop where
  /-- A system turn comes after one of another kind. -/
  | lateSystem {text : String} (h : ∃ t ∈ turns, t.isSystem = false) :
      Breaks turns (.system text) .lateSystem
  /-- A call has the id of an earlier one. -/
  | repeatedCall {callId name arguments : String} (h : callId ∈ madeCalls turns) :
      Breaks turns (.toolCall callId name arguments) (.repeatedCall callId)
  /-- A result names a call that was not made. -/
  | unknownCall {callId : String} {output : ToolOutput} (h : callId ∉ madeCalls turns) :
      Breaks turns (.toolResult callId output) (.unknownCall callId)

variable {ts us : List Turn} {t : Turn}

/-- Without turns no rule is broken. -/
theorem wellFormed_nil : WellFormed [] where
  system := by simp
  calls := .nil
  results := by simp

/-- **What a well-formed history begins with is a well-formed history.** -/
theorem WellFormed.of_append (h : WellFormed (ts ++ us)) : WellFormed ts where
  system before text later heq := by
    apply h.system before text (later ++ us)
    rw [heq, List.append_assoc, List.cons_append]
  calls := by
    have hcalls := h.calls
    rw [madeCalls_append] at hcalls
    exact (List.nodup_append.mp hcalls).1
  results before callId output later heq := by
    apply h.results before callId output (later ++ us)
    rw [heq, List.append_assoc, List.cons_append]

/-- The first turns of a well-formed history are a well-formed history. -/
theorem WellFormed.take (h : WellFormed ts) (n : Nat) : WellFormed (ts.take n) := by
  rw [← List.take_append_drop n ts] at h
  exact h.of_append

/-- A turn that breaks a rule spoils a history. -/
theorem Breaks.not_wellFormed {v : Violation} (h : Breaks ts t v) : ¬ WellFormed (ts ++ [t]) := by
  intro hw
  cases h with
  | lateSystem h =>
    obtain ⟨s, hs, hkind⟩ := h
    rw [hw.system ts _ [] rfl s hs] at hkind
    cases hkind
  | repeatedCall h =>
    have hcalls := hw.calls
    rw [madeCalls_append, madeCalls_singleton, List.nodup_append] at hcalls
    exact hcalls.2.2 _ h _ (List.mem_singleton_self _) rfl
  | unknownCall h => exact h (hw.results ts _ _ [] rfl)

/-- A turn breaks one rule at most. -/
theorem Breaks.unique {v w : Violation} (hv : Breaks ts t v) (hw : Breaks ts t w) : v = w := by
  cases hv <;> cases hw <;> rfl

/-- In a list with one more turn at its end, any turn is that one or stands before it. -/
theorem append_singleton_eq {before later : List Turn} {s : Turn}
    (h : ts ++ [t] = before ++ s :: later) :
    (ts = before ∧ t = s) ∨ ∃ later', ts = before ++ s :: later' := by
  rcases List.eq_nil_or_concat later with rfl | ⟨later', u, rfl⟩
  · obtain ⟨hts, ht⟩ := List.append_inj' h rfl
    exact .inl ⟨hts, List.singleton_inj.mp ht⟩
  · rw [List.concat_eq_append, ← List.cons_append, ← List.append_assoc] at h
    exact .inr ⟨later', (List.append_inj' h rfl).1⟩

/-- **A history stays well formed with one more turn exactly if the turn breaks no rule.** -/
theorem wellFormed_append_iff :
    WellFormed (ts ++ [t]) ↔ WellFormed ts ∧ ∀ v, ¬ Breaks ts t v := by
  constructor
  · intro h
    refine ⟨h.of_append, ?_⟩
    intro v hv
    exact hv.not_wellFormed h
  · rintro ⟨h, hbreaks⟩
    constructor
    case system =>
      intro before text later heq s hs
      rcases append_singleton_eq heq with ⟨rfl, rfl⟩ | ⟨later', hts⟩
      · by_cases hkind : s.isSystem = true
        · exact hkind
        · exact absurd (.lateSystem ⟨s, hs, by simpa using hkind⟩) (hbreaks .lateSystem)
      · exact h.system before text later' hts s hs
    case calls =>
      rw [madeCalls_append, madeCalls_singleton, List.nodup_append]
      refine ⟨h.calls, by cases t.madeCall? <;> simp, ?_⟩
      rintro callId hmade _ hcall rfl
      cases t with
      | toolCall k name arguments =>
        obtain rfl := List.mem_singleton.mp hcall
        exact hbreaks _ (.repeatedCall hmade)
      | _ => cases hcall
    case results =>
      intro before callId output later heq
      rcases append_singleton_eq heq with ⟨rfl, rfl⟩ | ⟨later', hts⟩
      · by_cases hmade : callId ∈ madeCalls ts
        · exact hmade
        · exact absurd (.unknownCall hmade) (hbreaks _)
      · exact h.results before callId output later' hts

end Courier.Dialogue
