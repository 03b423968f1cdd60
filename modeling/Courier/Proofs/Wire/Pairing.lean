import Courier.Profile.Input
import Courier.Proofs.Dialogue.History
import Courier.Wire.Correlation
import Mathlib.Data.List.Nodup

/-!
# Calls and their outputs

A call in a dialogue and the result that names it become a call and an output of the input. What
matters for the rules across items is only which ids they bear and in what order. These are the
links of turns and of items (`Turn.link?`, `Item.link?`), and turning a dialogue into items keeps
them as they are (`Profile.links_dialogueItems`).

`Paired known links` says that the calls among some links bear new ids and that each output comes
after a call with its id, where the ids in `known` are those of calls before all of them. The links
of a well-formed history are such (`paired_of_wellFormed`). Then no rule about calls is broken
(`checkCalls_eq_ok`), whether or not a backend asks for each output's call, and before each output
there is exactly one call with its id (`Paired.count_eq_one`).
-/

namespace Courier

open Courier.Dialogue Courier.Wire

/-! ## Links -/

/-- A call or what answers it. -/
inductive Link where
  /-- The call with an id. -/
  | call (callId : String)
  /-- The answer to it. -/
  | answer (callId : String)
  deriving DecidableEq

/-- The link that a turn is. -/
def Dialogue.Turn.link? : Turn → Option Link
  | .toolCall callId _ _ => some (.call callId)
  | .toolResult callId _ => some (.answer callId)
  | _ => none

/-- The link that an item is. -/
def Wire.Item.link? : Item → Option Link
  | .call callId _ _ => some (.call callId)
  | .output callId _ => some (.answer callId)
  | _ => none

/-- The items after the system turns hold the links of the turns. -/
theorem Profile.links_dialogueItems (p : Profile) (carried : Option String) (turns : List Turn) :
    (p.dialogueItems carried turns).filterMap Item.link? = turns.filterMap Turn.link? := by
  induction turns generalizing carried with
  | nil => rfl
  | cons t turns ih =>
    cases t with
    | reasoning id content encrypted =>
      rw [Profile.dialogueItems]
      split <;> simp [List.filterMap_cons, Item.link?, Turn.link?, ih]
    | _ =>
      simp [Profile.dialogueItems, Profile.message, List.filterMap_cons, Item.link?, Turn.link?, ih]

/-- The calls among some links bear new ids, and each answer comes after its call; ids in `known`
are those of calls before. -/
def Paired (known : List String) : List Link → Prop
  | [] => True
  | .call callId :: links => callId ∉ known ∧ Paired (known ++ [callId]) links
  | .answer callId :: links => callId ∈ known ∧ Paired known links

/-- **The links of a well-formed history are paired.** -/
theorem paired_of_wellFormed {before turns : List Turn} (h : WellFormed (before ++ turns)) :
    Paired (madeCalls before) (turns.filterMap Turn.link?) := by
  induction turns generalizing before with
  | nil => trivial
  | cons t turns ih =>
    rw [List.append_cons] at h
    have hbreaks := (wellFormed_append_iff.mp h.of_append).2
    have hrest := ih h
    rw [madeCalls_append, madeCalls_singleton] at hrest
    cases t with
    | toolCall callId name arguments =>
      refine ⟨?_, hrest⟩
      intro hmade
      exact hbreaks _ (.repeatedCall hmade)
    | toolResult callId output =>
      have hnone : Turn.madeCall? (.toolResult callId output) = none := rfl
      rw [hnone, Option.toList_none, List.append_nil] at hrest
      refine ⟨?_, hrest⟩
      by_cases hmade : callId ∈ madeCalls before
      · exact hmade
      · exact absurd (.unknownCall hmade) (hbreaks _)
    | _ => simpa [List.filterMap_cons, Turn.link?, Turn.madeCall?] using hrest

/-- **Before an answer there is exactly one call with its id**, those of the ids in `known`
counted. -/
theorem Paired.count_eq_one {known : List String} {links : List Link} (h : Paired known links)
    (hknown : known.Nodup) {before : List Link} {callId : String} {later : List Link}
    (heq : links = before ++ .answer callId :: later) :
    known.count callId + before.count (.call callId) = 1 := by
  induction links generalizing known before with
  | nil => simp at heq
  | cons l links ih =>
    cases before with
    | nil =>
      obtain ⟨rfl, rfl⟩ := List.cons.inj heq
      rw [List.count_eq_one_of_mem hknown h.1, List.count_nil]
    | cons b before =>
      obtain ⟨rfl, rfl⟩ := List.cons.inj heq
      cases l with
      | call k =>
        obtain ⟨hnew, hrest⟩ := h
        have hknown' : (known ++ [k]).Nodup := by
          rw [List.nodup_append]
          refine ⟨hknown, List.nodup_singleton k, ?_⟩
          rintro a ha _ hb rfl
          rw [List.mem_singleton.mp hb] at ha
          exact hnew ha
        have hcount := ih hrest hknown' rfl
        rw [List.count_append, List.count_singleton] at hcount
        rw [List.count_cons]
        by_cases hk : k = callId
        · simp only [hk, beq_self_eq_true, if_true] at hcount ⊢
          omega
        · simpa [hk] using hcount
      | answer k =>
        have hcount := ih h.2 hknown rfl
        rw [List.count_cons]
        simpa using hcount

/-! ## The check for calls -/

/-- **Paired calls pass the check**, whether outputs need their calls or not. -/
theorem Wire.checkCalls_eq_ok {items : List Item} {known : List String}
    (h : Paired known (items.filterMap Item.link?)) (pairing : Bool) {calls : Dict String}
    (hcalls : ∀ callId, calls.contains callId = true ↔ callId ∈ known) :
    checkCalls pairing calls items = .ok () := by
  induction items generalizing known calls with
  | nil => rfl
  | cons item items ih =>
    cases item with
    | call callId name arguments =>
      obtain ⟨hnew, hrest⟩ := h
      have hnone : calls.get? callId = none := by
        simpa [Dict.contains] using mt (hcalls callId).mp hnew
      rw [checkCalls, hnone]
      apply ih hrest
      intro k
      have hk := hcalls k
      unfold Dict.contains at hk ⊢
      rw [Dict.get?_insert]
      split <;> simp_all
    | output callId output =>
      obtain ⟨hmade, hrest⟩ := h
      rw [checkCalls, (hcalls callId).mpr hmade]
      simpa using ih hrest hcalls
    | message wrapped role content => exact ih h hcalls
    | reasoning id summary encrypted => exact ih h hcalls

end Courier
