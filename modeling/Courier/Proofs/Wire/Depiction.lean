import Courier.Profile.Builtin
import Courier.Proofs.Wire.Assembly

/-!
# What the items of a dialogue depict

`Profile.items` goes through the turns once, with a text that it carries to the first user turn.
Here the same is said in two stages and without going through anything:

* The system turns at the front are arranged (`Profile.Arranges`): they become messages of their
  own, or their texts go in front of the first user text, or, where there is no user turn, into a
  message at the front.
* Each of the other turns is depicted by one item, which shows all of it (`Profile.Depicts`);
  reasoning is left out where the backend does not take it back.

`Profile.Depiction p turns items` puts the stages together, and **`items_eq_iff_depiction`** says of
every conversation so far that its items are the ones with that property. A turn can be told from
the item that depicts it (`Depicts.turn_unique`), so that nothing is lost on the way.
-/

namespace Courier.Profile

open Courier.Dialogue Courier.Wire

variable {p : Profile}

/-! ## One turn -/

/-- An item shows a turn as it is, which is no system turn. -/
inductive Depicts (p : Profile) : Turn → Item → Prop where
  /-- What the user said. -/
  | user (text : String) :
      Depicts p (.user text) (.message p.wrapsMessages .user [.input text])
  /-- What the model said. -/
  | assistant (text : String) :
      Depicts p (.assistant text) (.message p.wrapsMessages .assistant [.output text])
  /-- What the model thought. -/
  | reasoning (id content : String) (encrypted : Option String) :
      Depicts p (.reasoning id content encrypted) (.reasoning id [content] encrypted)
  /-- A call. -/
  | call (callId name arguments : String) :
      Depicts p (.toolCall callId name arguments) (.call callId name arguments)
  /-- The answer to a call. -/
  | output (callId : String) (output : ToolOutput) :
      Depicts p (.toolResult callId output) (.output callId output)

/-- A turn is depicted by one item only. -/
theorem Depicts.item_unique {t : Turn} {i j : Item} (hi : p.Depicts t i) (hj : p.Depicts t j) :
    i = j := by
  cases hi <;> cases hj <;> rfl

/-- **An item depicts one turn only.** -/
theorem Depicts.turn_unique {t u : Turn} {i : Item} (ht : p.Depicts t i) (hu : p.Depicts u i) :
    t = u := by
  cases ht <;> cases hu <;> rfl

/-- The items that depict some turns one by one are the only ones. -/
theorem depicts_unique {ts : List Turn} {is js : List Item} (hi : List.Forall₂ p.Depicts ts is)
    (hj : List.Forall₂ p.Depicts ts js) : is = js := by
  induction hi generalizing js with
  | nil =>
    cases hj
    rfl
  | cons h _ ih =>
    cases hj with
    | cons h' hrest => rw [h.item_unique h', ih hrest]

/-- A backend is sent a turn: it is no reasoning, or the backend takes reasoning back. -/
def takes (p : Profile) (t : Turn) : Bool :=
  p.supportsReasoning || !t.isReasoning

/-- A turn that is no reasoning is sent, and depicted before those after it. -/
theorem depicts_cons {t : Turn} {i : Item} (h : p.Depicts t i) (ht : t.isReasoning = false)
    {ts : List Turn} {items : List Item}
    (hrest : List.Forall₂ p.Depicts (ts.filter p.takes) items) :
    List.Forall₂ p.Depicts ((t :: ts).filter p.takes) (i :: items) := by
  have hsent : p.takes t = true := by simp [takes, ht]
  rw [List.filter_cons_of_pos hsent]
  exact .cons h hrest

/-- Where no text is carried, the turns that are sent are depicted one by one. -/
theorem depicts_dialogueItems {ts : List Turn} (h : Spoken ts) :
    List.Forall₂ p.Depicts (ts.filter p.takes) (p.dialogueItems none ts) := by
  induction ts with
  | nil => exact .nil
  | cons t ts ih =>
    obtain ⟨ht, hts⟩ := List.forall_mem_cons.mp h
    cases t with
    | system text => cases ht
    | user text => exact depicts_cons (.user text) rfl (ih hts)
    | assistant text => exact depicts_cons (.assistant text) rfl (ih hts)
    | toolCall callId name arguments =>
      exact depicts_cons (.call callId name arguments) rfl (ih hts)
    | toolResult callId output => exact depicts_cons (.output callId output) rfl (ih hts)
    | reasoning id content encrypted =>
      rw [dialogueItems]
      cases hp : p.supportsReasoning with
      | true =>
        have hsent : p.takes (.reasoning id content encrypted) = true := by simp [takes, hp]
        rw [List.filter_cons_of_pos hsent]
        exact .cons (.reasoning id content encrypted) (ih hts)
      | false =>
        have hleft : ¬ p.takes (.reasoning id content encrypted) = true := by
          simp [takes, hp, Turn.isReasoning]
        rw [List.filter_cons_of_neg hleft]
        exact ih hts

/-! ## The text in front -/

/-- A text that is carried to the first user turn might have stood there from the beginning. -/
theorem dialogueItems_carried (front text : String) {before : List Turn}
    (h : ∀ t ∈ before, t.isUser = false) (after : List Turn) :
    p.dialogueItems (some front) (before ++ .user text :: after) =
      p.dialogueItems none (before ++ .user (front ++ paragraphBreak ++ text) :: after) := by
  induction before with
  | nil => rfl
  | cons t before ih =>
    obtain ⟨ht, hbefore⟩ := List.forall_mem_cons.mp h
    cases t with
    | user text' => cases ht
    | _ => simp only [List.cons_append, dialogueItems, ih hbefore]

/-- Where there is a user turn, there is a first one. -/
theorem exists_first_user {ts : List Turn} (h : ts.any Turn.isUser = true) :
    ∃ before text after, ts = before ++ .user text :: after ∧ ∀ t ∈ before, t.isUser = false := by
  induction ts with
  | nil => cases h
  | cons t ts ih =>
    cases ht : t.isUser with
    | true =>
      cases t with
      | user text => exact ⟨[], text, ts, rfl, by simp⟩
      | _ => cases ht
    | false =>
      have hts : ts.any Turn.isUser = true := by simpa [ht] using h
      obtain ⟨before, text, after, rfl, hbefore⟩ := ih hts
      exact ⟨t :: before, text, after, rfl, List.forall_mem_cons.mpr ⟨ht, hbefore⟩⟩

/-- The first user turn is the only first one. -/
theorem first_user_unique {before before' after after' : List Turn} {text text' : String}
    (h : ∀ t ∈ before, t.isUser = false) (h' : ∀ t ∈ before', t.isUser = false)
    (heq : before ++ .user text :: after = before' ++ .user text' :: after') :
    before = before' ∧ text = text' ∧ after = after' := by
  induction before generalizing before' with
  | nil =>
    cases before' with
    | nil => simpa using heq
    | cons t before' =>
      obtain ⟨rfl, -⟩ := List.cons.inj heq
      cases h' _ List.mem_cons_self
  | cons t before ih =>
    obtain ⟨ht, hbefore⟩ := List.forall_mem_cons.mp h
    cases before' with
    | nil =>
      obtain ⟨rfl, -⟩ := List.cons.inj heq
      cases ht
    | cons t' before' =>
      obtain ⟨rfl, hrest⟩ := List.cons.inj heq
      obtain ⟨rfl, hlater⟩ := ih hbefore (List.forall_mem_cons.mp h').2 hrest
      exact ⟨rfl, hlater⟩

/-- What becomes of the system turns at the front, whose texts are `texts`, and of the turns
`others` after them: the items that come first, and the turns that are depicted then. -/
inductive Arranges (p : Profile) (texts : List String) (others : List Turn) :
    List Item → List Turn → Prop where
  /-- There are none. -/
  | absent (h : texts = []) : Arranges p texts others [] others
  /-- They are messages of their own. -/
  | apart (h : p.movesSystem = false) :
      Arranges p texts others
        (texts.map fun text => .message p.wrapsMessages .system [.input text]) others
  /-- They go in front of the first user text, with blank lines in between. -/
  | joined (h : p.movesSystem = true) (hne : texts ≠ []) {before after : List Turn} {text : String}
      (hothers : others = before ++ .user text :: after)
      (hfirst : ∀ t ∈ before, t.isUser = false) :
      Arranges p texts others []
        (before ++ .user (paragraphBreak.intercalate texts ++ paragraphBreak ++ text) :: after)
  /-- There is no user text, so they become one. -/
  | alone (h : p.movesSystem = true) (hne : texts ≠ []) (hothers : ∀ t ∈ others, t.isUser = false) :
      Arranges p texts others
        [.message p.wrapsMessages .user [.input (paragraphBreak.intercalate texts)]] others

/-- System turns are arranged in one way only. -/
theorem Arranges.unique {texts : List String} {others turns turns' : List Turn}
    {head head' : List Item} (h : p.Arranges texts others head turns)
    (h' : p.Arranges texts others head' turns') : head = head' ∧ turns = turns' := by
  cases h with
  | absent h =>
    subst h
    cases h' with
    | joined _ hne => exact absurd rfl hne
    | alone _ hne => exact absurd rfl hne
    | _ => exact ⟨rfl, rfl⟩
  | apart h =>
    cases h' with
    | absent h' =>
      subst h'
      exact ⟨rfl, rfl⟩
    | apart => exact ⟨rfl, rfl⟩
    | joined h' => cases h.symm.trans h'
    | alone h' => cases h.symm.trans h'
  | joined h hne hothers hfirst =>
    cases h' with
    | absent h' => exact absurd h' hne
    | apart h' => cases h.symm.trans h'
    | joined _ _ hothers' hfirst' =>
      obtain ⟨rfl, rfl, rfl⟩ := first_user_unique hfirst hfirst' (hothers.symm.trans hothers')
      exact ⟨rfl, rfl⟩
    | alone _ _ hothers' =>
      rw [hothers] at hothers'
      exact absurd (hothers' _ (List.mem_append_right _ List.mem_cons_self)) (by simp [Turn.isUser])
  | alone h hne hothers =>
    cases h' with
    | absent h' => exact absurd h' hne
    | apart h' => cases h.symm.trans h'
    | joined _ _ hothers' =>
      rw [hothers'] at hothers
      exact absurd (hothers _ (List.mem_append_right _ List.mem_cons_self)) (by simp [Turn.isUser])
    | alone => exact ⟨rfl, rfl⟩

/-! ## Whole dialogues -/

/-- The texts of system turns. -/
theorem systemTexts_map (texts : List String) : systemTexts (texts.map .system) = texts := by
  induction texts with
  | nil => rfl
  | cons text texts ih =>
    show text :: systemTexts (texts.map .system) = _
    rw [ih]

/-- The text that is carried joins those of the system turns. -/
theorem carriedText_map {texts : List String} (h : texts ≠ []) :
    carriedText (texts.map .system) = some (paragraphBreak.intercalate texts) := by
  unfold carriedText
  rw [systemTexts_map]
  cases texts with
  | nil => exact absurd rfl h
  | cons text texts => rfl

/-- System turns are told by their texts. -/
theorem exists_map_system {ts : List Turn} (h : ∀ t ∈ ts, t.isSystem = true) :
    ∃ texts : List String, ts = texts.map .system := by
  induction ts with
  | nil => exact ⟨[], rfl⟩
  | cons t ts ih =>
    obtain ⟨ht, hts⟩ := List.forall_mem_cons.mp h
    obtain ⟨texts, rfl⟩ := ih hts
    cases t with
    | system text => exact ⟨text :: texts, rfl⟩
    | _ => cases ht

variable {texts : List String} {others : List Turn}

/-- System turns are system turns. -/
theorem isSystem_of_mem_map : ∀ t ∈ texts.map Turn.system, t.isSystem = true := by
  simp [Turn.isSystem]

/-- The system turns at the front end where the others begin. -/
theorem takeWhile_isSystem (h : Spoken others) :
    (texts.map Turn.system ++ others).takeWhile Turn.isSystem = texts.map .system := by
  rw [List.takeWhile_append_of_pos isSystem_of_mem_map]
  cases others with
  | nil => simp
  | cons t others => simp [h t List.mem_cons_self]

/-- The others begin where the system turns at the front end. -/
theorem dropWhile_isSystem (h : Spoken others) :
    (texts.map Turn.system ++ others).dropWhile Turn.isSystem = others := by
  rw [List.dropWhile_append_of_pos isSystem_of_mem_map]
  cases others with
  | nil => rfl
  | cons t others => simp [h t List.mem_cons_self]

/-- There is one way to tell the system turns at the front from the others. -/
theorem front_unique {texts' : List String} {others' : List Turn} (h : Spoken others)
    (h' : Spoken others')
    (heq : texts.map Turn.system ++ others = texts'.map Turn.system ++ others') :
    texts = texts' ∧ others = others' := by
  have htexts : texts.map Turn.system = texts'.map .system := by
    rw [← takeWhile_isSystem h, heq, takeWhile_isSystem h']
  constructor
  · rw [← systemTexts_map texts, htexts, systemTexts_map]
  · rw [← dropWhile_isSystem h, heq, dropWhile_isSystem h']

/-- **The items of a dialogue are those that the system turns are arranged in, and then those that
depict the other turns.** -/
theorem items_arranged (p : Profile) (texts : List String) (h : Spoken others) :
    ∃ head turns, p.Arranges texts others head turns ∧ Spoken turns ∧
      p.items (texts.map .system ++ others) = head ++ p.dialogueItems none turns := by
  unfold items
  simp only [takeWhile_isSystem h, dropWhile_isSystem h, systemTexts_map]
  cases hmoves : p.movesSystem with
  | false => exact ⟨_, others, .apart hmoves, h, rfl⟩
  | true =>
    by_cases hnil : texts = []
    · subst hnil
      exact ⟨[], others, .absent rfl, h, rfl⟩
    · rw [carriedText_map hnil]
      by_cases huser : others.any Turn.isUser = true
      · obtain ⟨before, text, after, rfl, hfirst⟩ := exists_first_user huser
        refine ⟨[], _, .joined hmoves hnil rfl hfirst, ?_, ?_⟩
        · intro t ht
          rcases List.mem_append.mp ht with ht | ht
          · exact h t (List.mem_append_left _ ht)
          · rcases List.mem_cons.mp ht with rfl | ht
            · rfl
            · exact h t (List.mem_append_right _ (List.mem_cons_of_mem _ ht))
        · simp only [huser, if_true, List.nil_append]
          exact dialogueItems_carried _ text hfirst after
      · refine ⟨_, others, .alone hmoves hnil ?_, h, ?_⟩
        · simpa using huser
        · simp only [huser, if_true]
          rfl

/-- Some items are what is sent of some turns: first those that the system turns are arranged in,
then one for each of the other turns that is sent, in order. -/
def Depiction (p : Profile) (turns : List Turn) (items : List Item) : Prop :=
  ∃ texts others, turns = texts.map .system ++ others ∧ Spoken others ∧
    ∃ head depicted images, p.Arranges texts others head depicted ∧ items = head ++ images ∧
      List.Forall₂ p.Depicts (depicted.filter p.takes) images

/-- Only one list of items is what is sent of some turns. -/
theorem Depiction.unique {turns : List Turn} {is js : List Item} (hi : p.Depiction turns is)
    (hj : p.Depiction turns js) : is = js := by
  obtain ⟨texts, others, rfl, hspoken, head, depicted, images, harranged, rfl, himages⟩ := hi
  obtain ⟨texts', others', heq, hspoken', head', depicted', images', harranged', rfl,
    himages'⟩ := hj
  obtain ⟨rfl, rfl⟩ := front_unique hspoken hspoken' heq
  obtain ⟨rfl, rfl⟩ := harranged.unique harranged'
  rw [depicts_unique himages himages']

/-- The items of a well-formed history are what is sent of it. -/
theorem depiction_items {turns : List Turn} (h : WellFormed turns) :
    p.Depiction turns (p.items turns) := by
  obtain ⟨texts, htexts⟩ : ∃ texts : List String,
      turns.takeWhile Turn.isSystem = texts.map .system := by
    apply exists_map_system
    intro t ht
    exact List.mem_takeWhile_imp ht
  have hturns : texts.map .system ++ turns.dropWhile Turn.isSystem = turns := by
    rw [← htexts, List.takeWhile_append_dropWhile]
  obtain ⟨head, depicted, harranged, hspoken, hitems⟩ := p.items_arranged texts h.spoken
  rw [hturns] at hitems
  exact ⟨texts, _, hturns.symm, h.spoken, head, depicted, _, harranged, hitems,
    depicts_dialogueItems hspoken⟩

/-- **Nothing is lost, made up or put in another place.** Whatever turns were tried on a
conversation, what is sent of its turns so far is their depiction, and each turn can be told from
the item that depicts it. -/
theorem items_eq_iff_depiction (p : Profile) (id : String) (ts : List Turn) (upto : Option Nat) :
    (∀ items, p.items (((Conversation.new id).attempts ts).snapshot upto).turns = items ↔
      p.Depiction (((Conversation.new id).attempts ts).snapshot upto).turns items) ∧
      ∀ t u item, p.Depicts t item → p.Depicts u item → t = u := by
  have hwell : WellFormed (((Conversation.new id).attempts ts).snapshot upto).turns :=
    ((Conversation.sound_new id).attempts ts).1.wellFormed.take _
  constructor
  · intro items
    constructor
    · rintro rfl
      exact depiction_items hwell
    · intro hdepicted
      exact (depiction_items hwell).unique hdepicted
  · intro t u item ht hu
    exact ht.turn_unique hu

/-- The system text goes in front of the first user text, and reasoning is left out. -/
example :
    codex.items [.system "Be terse.", .reasoning "r" "plan" none, .user "hi", .user "again"] =
      [.message false .user [.input "Be terse.\n\nhi"], .message false .user [.input "again"]] := by
  decide

end Courier.Profile
