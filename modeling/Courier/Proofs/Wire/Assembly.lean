import Courier.Proofs.Dialogue.Acceptance
import Courier.Proofs.Wire.Pairing
import Courier.Wire.Request
import Mathlib.Data.List.TakeWhile

/-!
# Which conversations make a request

`Request.make` can fail in many ways, but of a conversation that has grown turn by turn only two of
them are left. **`make_outcome`** says when: there is nothing to send, or what would be sent ends
with reasoning. No rule about calls can be broken, so it makes no difference whether a backend asks
for each output's call.

That comes from what is known of three parts: the history of a conversation is well formed
(`Conversation.Sound`), its items are messages for the system turns and then those of the other
turns (`Profile.items_eq`), and calls that are paired pass the check (`checkCalls_eq_ok`).
-/

namespace Courier

open Courier.Dialogue Courier.Wire

/-! ## The items of a dialogue -/

/-- No turn is a system turn. -/
def Dialogue.Spoken (turns : List Turn) : Prop :=
  ∀ t ∈ turns, t.isSystem = false

/-- In a well-formed history no system turn comes after those at the front. -/
theorem Dialogue.WellFormed.spoken {turns : List Turn} (h : WellFormed turns) :
    Spoken (turns.dropWhile Turn.isSystem) := by
  intro t ht
  obtain ⟨before, later, heq⟩ := List.append_of_mem ht
  have hhead := List.head?_dropWhile_not Turn.isSystem turns
  cases t with
  | system text =>
    have hturns : turns =
        (turns.takeWhile Turn.isSystem ++ before) ++ .system text :: later := by
      rw [List.append_assoc, ← heq, List.takeWhile_append_dropWhile]
    have hbefore := h.system _ _ _ hturns
    rw [heq] at hhead
    cases before with
    | nil => exact hhead
    | cons s before =>
      have hs : s.isSystem = true := hbefore s (by simp)
      exact absurd hs (by simpa using hhead)
  | _ => rfl

namespace Profile

variable {p : Profile}

/-- System turns have a text each. -/
theorem systemTexts_eq_nil_iff {ts : List Turn} (h : ∀ t ∈ ts, t.isSystem = true) :
    systemTexts ts = [] ↔ ts = [] := by
  cases ts with
  | nil => simp [systemTexts]
  | cons t ts =>
    have ht := h t List.mem_cons_self
    cases t with
    | system text => simp [systemTexts]
    | _ => cases ht

/-- There is no text to carry if there is no system turn. -/
theorem carriedText_eq_none_iff {ts : List Turn} (h : ∀ t ∈ ts, t.isSystem = true) :
    carriedText ts = none ↔ ts = [] := by
  rw [← systemTexts_eq_nil_iff h]
  unfold carriedText
  split <;> simp_all

/-- **The items of a dialogue** are messages for the system turns at the front, and then those of
the other turns. Where there are system turns there is a message, unless a user turn takes the
text. -/
theorem items_eq (p : Profile) (turns : List Turn) :
    ∃ front carried,
      p.items turns = front ++ p.dialogueItems carried (turns.dropWhile Turn.isSystem) ∧
      (∀ item ∈ front, item.link? = none ∧ item.isReasoning = false) ∧
      (front = [] ↔ turns.takeWhile Turn.isSystem = [] ∨
        p.movesSystem = true ∧ ∃ t ∈ turns.dropWhile Turn.isSystem, t.isUser = true) := by
  have hsystem : ∀ t ∈ turns.takeWhile Turn.isSystem, t.isSystem = true := by
    intro t ht
    exact List.mem_takeWhile_imp ht
  unfold items
  cases hmoves : p.movesSystem with
  | true =>
    cases htext : carriedText (turns.takeWhile Turn.isSystem) with
    | none =>
      refine ⟨[], none, ?_, by simp, ?_⟩
      · simp [htext]
      · simp [(carriedText_eq_none_iff hsystem).mp htext]
    | some text =>
      have hne : turns.takeWhile Turn.isSystem ≠ [] := by
        rw [Ne, ← carriedText_eq_none_iff hsystem, htext]
        simp
      by_cases huser : (turns.dropWhile Turn.isSystem).any Turn.isUser = true
      · refine ⟨[], some text, ?_, by simp, ?_⟩
        · simp [htext, huser]
        · simpa [hne] using huser
      · refine ⟨[p.message .user (.input text)], none, ?_, ?_, ?_⟩
        · simp [htext, huser]
        · simp [message, Item.link?, Item.isReasoning]
        · simpa [hne] using huser
  | false =>
    refine ⟨_, none, rfl, ?_, ?_⟩
    · simp [message, Item.link?, Item.isReasoning]
    · simp [systemTexts_eq_nil_iff hsystem]

/-- The items of later turns come later. -/
theorem exists_dialogueItems_append (p : Profile) (carried : Option String) (ts us : List Turn) :
    ∃ carried', p.dialogueItems carried (ts ++ us) =
      p.dialogueItems carried ts ++ p.dialogueItems carried' us := by
  induction ts generalizing carried with
  | nil => exact ⟨carried, rfl⟩
  | cons s ts ih =>
    cases s with
    | user text =>
      obtain ⟨carried', hrest⟩ := ih none
      exact ⟨carried', by simp [dialogueItems, hrest]⟩
    | reasoning id content encrypted =>
      obtain ⟨carried', hrest⟩ := ih carried
      refine ⟨carried', ?_⟩
      rw [List.cons_append, dialogueItems, dialogueItems, hrest]
      split <;> rfl
    | _ =>
      obtain ⟨carried', hrest⟩ := ih carried
      exact ⟨carried', by simp [dialogueItems, hrest]⟩

/-- Turns that are no system turns make no item only where they are left out: they are reasoning,
and the backend does not take it back. -/
theorem dialogueItems_eq_nil_iff {carried : Option String} {ts : List Turn} (h : Spoken ts) :
    p.dialogueItems carried ts = [] ↔
      ∀ t ∈ ts, p.supportsReasoning = false ∧ t.isReasoning = true := by
  induction ts generalizing carried with
  | nil => simp [dialogueItems]
  | cons t ts ih =>
    obtain ⟨ht, hts⟩ := List.forall_mem_cons.mp h
    rw [List.forall_mem_cons]
    cases t with
    | system text => cases ht
    | reasoning id content encrypted =>
      rw [dialogueItems]
      cases hp : p.supportsReasoning with
      | true => simp
      | false => simpa [Turn.isReasoning, hp] using ih hts
    | _ => simp [dialogueItems, Turn.isReasoning]

/-- A backend that does not take reasoning back is sent none after the system turns. -/
theorem isReasoning_dialogueItems (hp : p.supportsReasoning = false) (carried : Option String)
    (ts : List Turn) : ∀ item ∈ p.dialogueItems carried ts, item.isReasoning = false := by
  induction ts generalizing carried with
  | nil => simp [dialogueItems]
  | cons t ts ih =>
    cases t with
    | reasoning id content encrypted => simpa [dialogueItems, hp] using ih carried
    | user text => simpa [dialogueItems, message, Item.isReasoning] using ih none
    | _ => simpa [dialogueItems, message, Item.isReasoning] using ih carried

/-- A backend that does not take reasoning back is sent none. -/
theorem isReasoning_items (hp : p.supportsReasoning = false) (turns : List Turn) :
    ∀ item ∈ p.items turns, item.isReasoning = false := by
  obtain ⟨front, carried, hitems, hfront, -⟩ := p.items_eq turns
  rw [hitems]
  intro item hitem
  rcases List.mem_append.mp hitem with hitem | hitem
  · exact (hfront item hitem).2
  · exact isReasoning_dialogueItems hp _ _ item hitem

/-- **Nothing is sent** if all turns are left out, and only then. -/
theorem items_eq_nil_iff {turns : List Turn} (h : WellFormed turns) :
    p.items turns = [] ↔ ∀ t ∈ turns, p.supportsReasoning = false ∧ t.isReasoning = true := by
  obtain ⟨front, carried, hitems, -, hfront⟩ := p.items_eq turns
  rw [hitems, List.append_eq_nil_iff, dialogueItems_eq_nil_iff h.spoken, hfront]
  constructor
  · rintro ⟨hsystem | ⟨-, t, ht, huser⟩, hrest⟩
    · intro t ht
      rw [← List.takeWhile_append_dropWhile (p := Turn.isSystem) (l := turns), hsystem] at ht
      exact hrest t ht
    · have hreasoning := (hrest t ht).2
      cases t <;> simp [Turn.isUser, Turn.isReasoning] at huser hreasoning
  · intro hall
    refine ⟨.inl ?_, ?_⟩
    · cases turns with
      | nil => rfl
      | cons t ts =>
        have hreasoning := (hall t List.mem_cons_self).2
        cases t <;> simp [Turn.isSystem, Turn.isReasoning] at hreasoning ⊢
    · intro t ht
      exact hall t ((List.dropWhile_suffix _).subset ht)

/-- **What is sent ends with reasoning** if the last turn is reasoning and is not left out, and only
then. -/
theorem getLast?_items_iff {turns : List Turn} (h : WellFormed turns) {id : String} :
    (∃ summary encrypted, (p.items turns).getLast? = some (.reasoning id summary encrypted)) ↔
      p.supportsReasoning = true ∧
        ∃ content encrypted, turns.getLast? = some (.reasoning id content encrypted) := by
  cases hp : p.supportsReasoning with
  | false =>
    constructor
    · rintro ⟨summary, encrypted, hlast⟩
      cases isReasoning_items hp turns _ (List.mem_of_getLast? hlast)
    · rintro ⟨hp', -⟩
      cases hp'
  | true =>
    obtain ⟨front, carried, hitems, hfront, -⟩ := p.items_eq turns
    have hturns := List.takeWhile_append_dropWhile (p := Turn.isSystem) (l := turns)
    rw [hitems]
    rcases List.eq_nil_or_concat (turns.dropWhile Turn.isSystem) with hnil | ⟨ts, t, hconcat⟩
    · rw [hnil] at hturns ⊢
      constructor
      · rintro ⟨summary, encrypted, hlast⟩
        rw [dialogueItems, List.append_nil] at hlast
        cases (hfront _ (List.mem_of_getLast? hlast)).2
      · rintro ⟨-, content, encrypted, hlast⟩
        rw [← hturns, List.append_nil] at hlast
        cases List.mem_takeWhile_imp (List.mem_of_getLast? hlast)
    · rw [List.concat_eq_append] at hconcat
      have ht : t.isSystem = false := h.spoken t (by simp [hconcat])
      have hlast : turns.getLast? = some t := by
        rw [← hturns, hconcat]
        simp
      obtain ⟨carried', hitem⟩ := p.exists_dialogueItems_append carried ts [t]
      rw [hconcat, hitem, hlast]
      cases t with
      | system text => cases ht
      | reasoning id content encrypted => simp [dialogueItems, hp]
      | _ => simp [dialogueItems, message]

/-- The items hold the links of the turns. -/
theorem links_items (p : Profile) (turns : List Turn) :
    (p.items turns).filterMap Item.link? = turns.filterMap Turn.link? := by
  obtain ⟨front, carried, hitems, hfront, -⟩ := p.items_eq turns
  have hnone : front.filterMap Item.link? = [] := by
    rw [List.filterMap_eq_nil_iff]
    intro item hitem
    exact (hfront item hitem).1
  have hsystem : (turns.takeWhile Turn.isSystem).filterMap Turn.link? = [] := by
    rw [List.filterMap_eq_nil_iff]
    intro t ht
    have hkind := List.mem_takeWhile_imp ht
    cases t <;> simp [Turn.isSystem, Turn.link?] at hkind ⊢
  conv_rhs => rw [← List.takeWhile_append_dropWhile (p := Turn.isSystem) (l := turns)]
  rw [hitems, List.filterMap_append, List.filterMap_append, hnone, hsystem, links_dialogueItems]

/-- What a backend asks for outputs makes no difference to the items. -/
theorem dialogueItems_requiresPairing (p : Profile) (b : Bool) (carried : Option String)
    (ts : List Turn) :
    dialogueItems { p with requiresPairing := b } carried ts = p.dialogueItems carried ts := by
  induction ts generalizing carried with
  | nil => rfl
  | cons t ts ih => cases t <;> simp [dialogueItems, message, ih]

/-- What a backend asks for outputs makes no difference to the items. -/
theorem items_requiresPairing (p : Profile) (b : Bool) (turns : List Turn) :
    items { p with requiresPairing := b } turns = p.items turns := by
  simp [items, dialogueItems_requiresPairing, message]

end Profile

/-! ## Requests -/

namespace Wire

/-- **Items with paired calls pass the check** unless the last one is reasoning. -/
theorem check_eq {items : List Item} (h : Paired [] (items.filterMap Item.link?))
    (pairing : Bool) :
    check pairing items =
      match items.getLast? with
      | some (.reasoning id _ _) => .error (.trailingReasoning id)
      | _ => .ok () := by
  rw [check, checkCalls_eq_ok h pairing (by simp [Dict.contains, Dict.get?_empty])]
  rfl

namespace Request

/-- Making a request, one thing after the other. -/
theorem make_eq (s : Snapshot) (p : Profile) (o : CallOptions) :
    make s p o =
      if p.items s.turns = [] then .error .emptyInput
      else match check p.requiresPairing (p.items s.turns) with
        | .error c => .error (.conflict c)
        | .ok () => .ok ⟨p.model, Text.trim p.instructions, p.items s.turns, p.permit o⟩ := by
  unfold make
  cases hitems : p.items s.turns with
  | nil => rfl
  | cons item items =>
    cases hcheck : check p.requiresPairing (item :: items) with
    | error c => simp [hcheck, Except.mapError, bind, Except.bind]
    | ok u => simp [hcheck, Except.mapError, bind, Except.bind, pure, Except.pure]

/-- What a request is that can be made. -/
theorem eq_of_make {s : Snapshot} {p : Profile} {o : CallOptions} {r : Request}
    (h : make s p o = .ok r) :
    r = ⟨p.model, Text.trim p.instructions, p.items s.turns, p.permit o⟩ := by
  rw [make_eq] at h
  split at h
  next => cases h
  next =>
    split at h
    next => cases h
    next => exact (Except.ok.inj h).symm

/-- Of some turns nothing is sent: there are none, or only reasoning that is left out. -/
def Silent (s : Snapshot) (p : Profile) : Prop :=
  s.turns = [] ∨ p.supportsReasoning = false ∧ ∀ t ∈ s.turns, t.isReasoning = true

/-- What is sent of some turns ends with the reasoning that has an id. -/
def Unfinished (s : Snapshot) (p : Profile) (id : String) : Prop :=
  p.supportsReasoning = true ∧
    ∃ content encrypted, s.turns.getLast? = some (.reasoning id content encrypted)

variable {s : Snapshot}

/-- Nothing is sent of some turns if and only if they make no items. -/
theorem silent_iff (h : WellFormed s.turns) (p : Profile) :
    Silent s p ↔ p.items s.turns = [] := by
  rw [p.items_eq_nil_iff h]
  constructor
  · rintro (hnil | ⟨hp, hall⟩)
    · simp [hnil]
    · intro t ht
      exact ⟨hp, hall t ht⟩
  · intro hall
    by_cases hnil : s.turns = []
    · exact .inl hnil
    · obtain ⟨t, ht⟩ := List.exists_mem_of_ne_nil _ hnil
      exact .inr ⟨(hall t ht).1, fun u hu => (hall u hu).2⟩

/-- If nothing is sent, it does not end with reasoning. -/
theorem Silent.not_unfinished {p : Profile} {id : String} (h : Silent s p) :
    ¬ Unfinished s p id := by
  rintro ⟨hp, content, encrypted, hlast⟩
  rcases h with hnil | ⟨hp', -⟩
  · simp [hnil] at hlast
  · cases hp.symm.trans hp'

/-- What is sent ends with one item. -/
theorem Unfinished.unique {p : Profile} {id id' : String} (h : Unfinished s p id)
    (h' : Unfinished s p id') : id = id' := by
  obtain ⟨-, content, encrypted, hlast⟩ := h
  obtain ⟨-, content', encrypted', hlast'⟩ := h'
  rw [hlast] at hlast'
  cases hlast'
  rfl

/-- The items of a well-formed history are paired. -/
theorem paired_items (h : WellFormed s.turns) (p : Profile) :
    Paired [] ((p.items s.turns).filterMap Item.link?) := by
  rw [p.links_items]
  exact @paired_of_wellFormed [] s.turns h

/-- Before an output among the items of a well-formed history there is exactly one call with its
id. -/
theorem countP_call_eq_one (h : WellFormed s.turns) (p : Profile) {before later : List Item}
    {callId : String} {output : ToolOutput}
    (heq : p.items s.turns = before ++ .output callId output :: later) :
    before.countP (fun item => item.link? == some (.call callId)) = 1 := by
  have hlinks : (p.items s.turns).filterMap Item.link? =
      before.filterMap Item.link? ++ .answer callId :: later.filterMap Item.link? := by
    simp [heq, Item.link?]
  have hcount := (paired_items h p).count_eq_one .nil hlinks
  rw [List.count_nil, Nat.zero_add, List.count, List.countP_filterMap] at hcount
  rw [← hcount]
  congr 1
  funext item
  cases item.link? <;> simp

/-- **What can become of a well-formed history**, one case after the other. -/
theorem make_cases (h : WellFormed s.turns) (p : Profile) (o : CallOptions) :
    (Silent s p ∧ make s p o = .error .emptyInput) ∨
      (¬ Silent s p ∧ ∃ id, Unfinished s p id ∧
        make s p o = .error (.conflict (.trailingReasoning id))) ∨
      (¬ Silent s p ∧ (∀ id, ¬ Unfinished s p id) ∧
        ∃ r, make s p o = .ok r ∧ r.input = p.items s.turns ∧
          ∀ item, r.input.getLast? = some item → item.isReasoning = false) := by
  have hlast : ∀ id,
      (∃ summary encrypted, (p.items s.turns).getLast? = some (.reasoning id summary encrypted)) ↔
        Unfinished s p id :=
    fun id => p.getLast?_items_iff h
  rw [make_eq, check_eq (paired_items h p), silent_iff h]
  by_cases hnil : p.items s.turns = []
  · exact .inl ⟨hnil, if_pos hnil⟩
  · rw [if_neg hnil]
    refine .inr ?_
    cases hitem : (p.items s.turns).getLast? with
    | none => exact absurd (List.getLast?_eq_none_iff.mp hitem) hnil
    | some item =>
      have hothers : item.isReasoning = false → ∀ id, ¬ Unfinished s p id := by
        intro hkind id hid
        obtain ⟨summary, encrypted, heq⟩ := (hlast id).mpr hid
        rw [hitem] at heq
        cases heq
        cases hkind
      cases item with
      | reasoning id summary encrypted =>
        exact .inl ⟨hnil, id, (hlast id).mp ⟨summary, encrypted, hitem⟩, rfl⟩
      | _ => exact .inr ⟨hnil, hothers rfl, _, rfl, rfl, by simp [hitem, Item.isReasoning]⟩

/-- What becomes of a conversation when a request is to be made of its turns so far. -/
structure Outcome (s : Snapshot) (p : Profile) (o : CallOptions) : Prop where
  /-- There is nothing to send if there are no turns, or only reasoning that is left out. -/
  empty : make s p o = .error .emptyInput ↔ Silent s p
  /-- The one conflict that there can be is reasoning at the end. -/
  conflict : ∀ c, make s p o = .error (.conflict c) ↔
    ∃ id, c = .trailingReasoning id ∧ Unfinished s p id
  /-- Otherwise there is a request. -/
  made : (∃ r, make s p o = .ok r) ↔ ¬ Silent s p ∧ ∀ id, ¬ Unfinished s p id
  /-- Whether a backend asks for each output's call makes no difference. -/
  pairing : ∀ b, make s { p with requiresPairing := b } o = make s p o
  /-- Before an output in a request there is exactly one call with its id. -/
  paired : ∀ r, make s p o = .ok r → ∀ before callId output later,
    r.input = before ++ .output callId output :: later →
      before.countP (fun item => item.link? == some (.call callId)) = 1
  /-- The last item of a request is not reasoning. -/
  last : ∀ r, make s p o = .ok r → ∀ item, r.input.getLast? = some item →
    item.isReasoning = false

/-- A well-formed history makes a request unless nothing is sent or reasoning comes last. -/
theorem outcome_of_wellFormed (h : WellFormed s.turns) (p : Profile) (o : CallOptions) :
    Outcome s p o := by
  have hcases := make_cases h p o
  have hok : ∀ r, make s p o = .ok r → r.input = p.items s.turns ∧
      ∀ item, r.input.getLast? = some item → item.isReasoning = false := by
    intro r hr
    rcases hcases with ⟨-, heq⟩ | ⟨-, id, -, heq⟩ | ⟨-, -, r', heq, hrest⟩
    · cases hr.symm.trans heq
    · cases hr.symm.trans heq
    · cases hr.symm.trans heq
      exact hrest
  constructor
  case empty =>
    rcases hcases with ⟨hsilent, heq⟩ | ⟨hsilent, id, -, heq⟩ | ⟨hsilent, -, r, heq, -⟩ <;>
      simp [heq, hsilent]
  case conflict =>
    intro c
    rcases hcases with ⟨hsilent, heq⟩ | ⟨-, id, hid, heq⟩ | ⟨-, hid, r, heq, -⟩
    · simp [heq, hsilent.not_unfinished]
    · rw [heq]
      constructor
      · intro hc
        cases hc
        exact ⟨id, rfl, hid⟩
      · rintro ⟨id', rfl, hid'⟩
        rw [hid.unique hid']
    · simp [heq, hid]
  case made =>
    rcases hcases with ⟨hsilent, heq⟩ | ⟨-, id, hid, heq⟩ | ⟨hsilent, hid, r, heq, -⟩
    · simp [heq, hsilent]
    · rw [heq]
      constructor
      · rintro ⟨r, hr⟩
        cases hr
      · rintro ⟨-, hnone⟩
        exact absurd hid (hnone id)
    · simp [heq, hsilent, hid]
  case pairing =>
    intro b
    rw [make_eq, make_eq, p.items_requiresPairing, check_eq (paired_items h p),
      check_eq (paired_items h p)]
    rfl
  case paired =>
    intro r hr before callId output later heq
    rw [(hok r hr).1] at heq
    exact countP_call_eq_one h p heq
  case last =>
    intro r hr
    exact (hok r hr).2

/-- **What becomes of a conversation** when a request is to be made of its turns so far, whatever
turns were tried on it, with or without success. -/
theorem make_outcome (id : String) (ts : List Turn) (upto : Option Nat) (p : Profile)
    (o : CallOptions) : Outcome (((Conversation.new id).attempts ts).snapshot upto) p o := by
  apply outcome_of_wellFormed
  exact ((Conversation.sound_new id).attempts ts).1.wellFormed.take _

end Request

end Wire

end Courier
