import Courier.Proofs.Wire.Depiction

/-!
# Input grows at its end

A backend may keep what it has read of the input, so it matters whether a later request begins with
the items of an earlier one. It does not go without saying: the text of the system turns may be
carried to a user turn that is still to come, and then it has to be taken back from the front.

`Profile.Steady p turns` says that nothing of these turns waits for a later one.
**`items_prefix_iff`** says of turns that are continued that their items come first then, and
otherwise only as long as no system turn and no user turn is among the new ones. **`input_stays`** is that for a conversation and
for the requests that are made of it (`Profile.Stays`).
-/

namespace Courier.Profile

open Courier.Dialogue Courier.Wire

variable {p : Profile}

/-- Nothing that is sent of some turns depends on the turns after them. -/
inductive Steady (p : Profile) (turns : List Turn) : Prop where
  /-- System turns are messages of their own. -/
  | apart (h : p.movesSystem = false)
  /-- There are no system turns. -/
  | absent (h : ∀ t ∈ turns, t.isSystem = false)
  /-- A user turn has taken their text. -/
  | taken (h : ∃ t ∈ turns, t.isUser = true)

/-! ## Items of continued turns -/

/-- The items of the turns after the system turns stay in front. -/
theorem dialogueItems_prefix (carried : Option String) (ts us : List Turn) :
    p.dialogueItems carried ts <+: p.dialogueItems carried (ts ++ us) := by
  obtain ⟨carried', hitems⟩ := p.exists_dialogueItems_append carried ts us
  rw [hitems]
  exact List.prefix_append _ _

/-- If the first item is a message by the user, it is that of the first user turn. -/
theorem text_of_head?_dialogueItems {before after : List Turn} {text said : String}
    (hfirst : ∀ t ∈ before, t.isUser = false)
    (h : (p.dialogueItems none (before ++ .user text :: after)).head? =
      some (.message p.wrapsMessages .user [.input said])) : said = text := by
  induction before with
  | nil =>
    simp only [List.nil_append, dialogueItems, withCarried, message, List.head?_cons,
      Option.some.injEq, Item.message.injEq, List.cons.injEq, Content.input.injEq] at h
    exact h.2.2.1.symm
  | cons t before ih =>
    obtain ⟨ht, hbefore⟩ := List.forall_mem_cons.mp hfirst
    cases t with
    | user text' => cases ht
    | system text' => exact ih hbefore h
    | reasoning id content encrypted =>
      rw [List.cons_append, dialogueItems] at h
      split at h
      · simp at h
      · exact ih hbefore h
    | _ => simp [dialogueItems, message] at h

/-- More system turns make a longer text. -/
theorem length_joined_lt {texts texts' : List String} (h : texts ≠ []) (h' : texts' ≠ []) :
    (paragraphBreak.intercalate texts).length <
      (paragraphBreak.intercalate (texts ++ texts')).length := by
  have hbreak : paragraphBreak.length = 2 := rfl
  rw [String.intercalate_append_of_ne_nil h h', String.length_append, String.length_append]
  omega

/-- The text of system turns is not that of more of them with something behind it. -/
theorem joined_ne_append {texts : List String} (h : texts ≠ []) (texts' : List String)
    (text : String) : paragraphBreak.intercalate texts ≠
      paragraphBreak.intercalate (texts ++ texts') ++ paragraphBreak ++ text := by
  intro heq
  have hbreak : paragraphBreak.length = 2 := rfl
  have hlength := congrArg String.length heq
  rw [String.length_append, String.length_append] at hlength
  by_cases h' : texts' = []
  · rw [h', List.append_nil] at hlength
    omega
  · have := length_joined_lt h h'
    omega

/-- System turns that stand in front of all others stay there if the turns are continued; there are
new ones only if there are no others. -/
theorem exists_fronts {ts us : List Turn} (h : WellFormed (ts ++ us)) :
    ∃ (texts texts' : List String) (others others' : List Turn),
      ts = texts.map .system ++ others ∧ us = texts'.map .system ++ others' ∧
      Spoken (others ++ others') ∧ (others = [] ∨ texts' = []) := by
  have hall := h.spoken
  rw [List.dropWhile_append] at hall
  obtain ⟨texts, htexts⟩ : ∃ texts : List String,
      ts.takeWhile Turn.isSystem = texts.map .system :=
    exists_map_system fun t ht => List.mem_takeWhile_imp ht
  have hts : ts = texts.map .system ++ ts.dropWhile Turn.isSystem := by
    rw [← htexts, List.takeWhile_append_dropWhile]
  by_cases hothers : ts.dropWhile Turn.isSystem = []
  · obtain ⟨texts', htexts'⟩ : ∃ texts' : List String,
        us.takeWhile Turn.isSystem = texts'.map .system :=
      exists_map_system fun t ht => List.mem_takeWhile_imp ht
    have hus : us = texts'.map .system ++ us.dropWhile Turn.isSystem := by
      rw [← htexts', List.takeWhile_append_dropWhile]
    rw [hothers] at hall hts
    exact ⟨texts, texts', [], _, hts, hus, hall, .inl rfl⟩
  · rw [if_neg (by simpa using hothers)] at hall
    exact ⟨texts, [], _, us, hts, rfl, hall, .inr rfl⟩

/-- The items of turns whose system turns are arranged in a way. -/
theorem Arranges.items_eq {texts : List String} {others turns : List Turn} {head : List Item}
    (h : p.Arranges texts others head turns) (hspoken : Spoken others) :
    p.items (texts.map .system ++ others) = head ++ p.dialogueItems none turns := by
  obtain ⟨head', turns', h', -, hitems⟩ := p.items_arranged texts hspoken
  obtain ⟨rfl, rfl⟩ := h.unique h'
  exact hitems

/-- The text of system turns waits for a user turn as long as there is none. -/
theorem not_steady {texts : List String} {others : List Turn} (hmoves : p.movesSystem = true)
    (htexts : texts ≠ []) (hnone : ∀ t ∈ others, t.isUser = false) :
    ¬ p.Steady (texts.map .system ++ others) := by
  intro h
  cases h with
  | apart hmoves' => cases hmoves.symm.trans hmoves'
  | absent hspoken =>
    obtain ⟨text, htext⟩ := List.exists_mem_of_ne_nil texts htexts
    cases hspoken (.system text) (by simp [htext])
  | taken huser =>
    obtain ⟨t, ht, hkind⟩ := huser
    rcases List.mem_append.mp ht with ht | ht
    · obtain ⟨text, -, rfl⟩ := List.mem_map.mp ht
      cases hkind
    · cases hkind.symm.trans (hnone t ht)

/-- The text of system turns that stands in a message at the front stays there exactly if the turns
go on without system and user turns. -/
theorem alone_prefix_iff {texts texts' : List String} {others others' : List Turn}
    (hmoves : p.movesSystem = true) (htexts : texts ≠ [])
    (hnone : ∀ t ∈ others, t.isUser = false) (hspoken : Spoken (others ++ others'))
    (hfronts : others = [] ∨ texts' = []) :
    .message p.wrapsMessages .user [.input (paragraphBreak.intercalate texts)] ::
        p.dialogueItems none others <+:
          p.items ((texts ++ texts').map .system ++ (others ++ others')) ↔
      texts' = [] ∧ ∀ t ∈ others', t.isUser = false := by
  constructor
  · rintro ⟨more, hmore⟩
    obtain ⟨head, turns, harranged, -, hitems⟩ := p.items_arranged (texts ++ texts') hspoken
    have hhead : (head ++ p.dialogueItems none turns).head? =
        some (.message p.wrapsMessages .user [.input (paragraphBreak.intercalate texts)]) := by
      rw [← hitems, ← hmore]
      rfl
    cases harranged with
    | absent hnil => exact absurd (List.append_eq_nil_iff.mp hnil).1 htexts
    | apart hmoves' => cases hmoves.symm.trans hmoves'
    | joined _ _ _ hfirst =>
      exact absurd (text_of_head?_dialogueItems hfirst hhead) (joined_ne_append htexts _ _)
    | alone _ _ hnone' =>
      have hjoined : paragraphBreak.intercalate (texts ++ texts') =
          paragraphBreak.intercalate texts := by simpa using hhead
      refine ⟨?_, (List.forall_mem_append.mp hnone').2⟩
      by_contra htexts'
      exact absurd (hjoined ▸ length_joined_lt htexts htexts') (lt_irrefl _)
  · rintro ⟨rfl, hnone'⟩
    have harranged := Arranges.alone hmoves htexts (List.forall_mem_append.mpr ⟨hnone, hnone'⟩)
    rw [List.append_nil, harranged.items_eq hspoken, List.singleton_append,
      List.cons_prefix_cons]
    exact ⟨rfl, dialogueItems_prefix none others others'⟩

/-- **The items of turns that are continued come first**, unless the text of the system turns waits
for a user turn; then they do so only as long as the turns go on without system and user turns. -/
theorem items_prefix_iff {ts us : List Turn} (h : WellFormed (ts ++ us)) :
    p.items ts <+: p.items (ts ++ us) ↔
      p.Steady ts ∨ ∀ t ∈ us, t.isSystem = false ∧ t.isUser = false := by
  obtain ⟨texts, texts', others, others', rfl, rfl, hall, hfronts⟩ := exists_fronts h
  obtain ⟨hspoken, hspoken'⟩ := List.forall_mem_append.mp hall
  have hturns : texts.map Turn.system ++ others ++ (texts'.map .system ++ others') =
      (texts ++ texts').map .system ++ (others ++ others') := by
    rcases hfronts with rfl | rfl <;> simp
  obtain ⟨head, turns, harranged, -, hitems⟩ := p.items_arranged texts hspoken
  rw [hturns, hitems]
  cases harranged with
  | absent htexts =>
    subst htexts
    refine iff_of_true ?_ (.inl (.absent hspoken))
    rcases hfronts with rfl | rfl
    · exact List.nil_prefix
    · rw [List.append_nil, (Arranges.absent rfl).items_eq hall]
      exact dialogueItems_prefix none others others'
  | apart hmoves =>
    refine iff_of_true ?_ (.inl (.apart hmoves))
    rw [(Arranges.apart hmoves).items_eq hall]
    rcases hfronts with rfl | rfl
    · simp [dialogueItems]
    · rw [List.append_nil, List.prefix_append_right_inj]
      exact dialogueItems_prefix none others others'
  | @joined hmoves htexts before after text hothers hfirst =>
    subst hothers
    have htaken : .user text ∈ texts.map Turn.system ++ (before ++ .user text :: after) := by simp
    refine iff_of_true ?_ (.inl (.taken ⟨_, htaken, rfl⟩))
    rcases hfronts with hnil | rfl
    · simp at hnil
    · have hlonger : before ++ .user text :: after ++ others' =
          before ++ .user text :: (after ++ others') := List.append_assoc _ _ _
      rw [List.append_nil, (Arranges.joined hmoves htexts hlonger hfirst).items_eq hall,
        List.prefix_append_right_inj, ← List.cons_append, ← List.append_assoc]
      exact dialogueItems_prefix none _ others'
  | alone hmoves htexts hnone =>
    rw [List.singleton_append, alone_prefix_iff hmoves htexts hnone hall hfronts]
    constructor
    · rintro ⟨rfl, hnone'⟩
      exact .inr fun t ht => ⟨hspoken' t ht, hnone' t ht⟩
    · rintro (hsteady | hquiet)
      · exact absurd hsteady (not_steady hmoves htexts hnone)
      · obtain ⟨htexts', hothers'⟩ := List.forall_mem_append.mp hquiet
        refine ⟨?_, fun t ht => (hothers' t ht).2⟩
        rw [← List.map_eq_nil_iff (f := Turn.system), List.eq_nil_iff_forall_not_mem]
        intro t ht
        exact absurd (isSystem_of_mem_map t ht) (by simp [(htexts' t ht).1])

/-! ## Conversations that go on -/

/-- What was sent of some turns is what is sent of more of them begins with. -/
structure Stays (p : Profile) (sent later : Snapshot) : Prop where
  /-- The items that were sent come first, in their order, if they are steady. -/
  items : p.Steady sent.turns → p.items sent.turns <+: p.items later.turns
  /-- So do those of a request, whatever the options. -/
  requests : p.Steady sent.turns → ∀ o o' r r', Request.make sent p o = .ok r →
    Request.make later p o' = .ok r' → r.input <+: r'.input
  /-- If they are not, they come first as long as there is no new system or user turn. -/
  waiting : ¬ p.Steady sent.turns → (p.items sent.turns <+: p.items later.turns ↔
    ∀ t ∈ later.turns.drop sent.turns.length, t.isSystem = false ∧ t.isUser = false)

/-- What turns are continued with is what comes after them. -/
theorem stays_of_prefix {sent later : Snapshot} (hgrown : sent.turns <+: later.turns)
    (hwell : WellFormed later.turns) : p.Stays sent later := by
  obtain ⟨us, hus⟩ := hgrown
  rw [← hus] at hwell
  have hiff := items_prefix_iff (p := p) hwell
  rw [hus] at hiff
  have hitems : p.Steady sent.turns → p.items sent.turns <+: p.items later.turns :=
    fun h => hiff.mpr (.inl h)
  refine ⟨hitems, ?_, ?_⟩
  · intro h o o' r r' hr hr'
    rw [Request.eq_of_make hr, Request.eq_of_make hr']
    exact hitems h
  · intro h
    rw [hiff, or_iff_right h, ← hus, List.drop_left]

/-- **What was sent is not altered by later turns.** Whatever turns are tried on a conversation and
then on it again, what is sent of a first part of it stays in front of what is sent of a longer
part. -/
theorem input_stays (p : Profile) (id : String) (ts us : List Turn) {m n : Option Nat}
    (hmn : m.getD ((Conversation.new id).attempts ts).length ≤
      n.getD (((Conversation.new id).attempts ts).attempts us).length) :
    p.Stays (((Conversation.new id).attempts ts).snapshot m)
      ((((Conversation.new id).attempts ts).attempts us).snapshot n) := by
  have hsound := ((Conversation.sound_new id).attempts ts).1
  apply stays_of_prefix
  · exact List.prefix_take_iff.mpr ⟨(List.take_prefix _ _).trans (hsound.prefix_attempts us),
      (List.length_take_le _ _).trans hmn⟩
  · exact (hsound.attempts us).1.wellFormed.take _

/-- A system text that a user turn has taken stays where it is, and a turn that is refused later
changes nothing. -/
theorem input_stays_greeting :
    (none.getD ((Conversation.new "c").attempts [.system "Be terse.", .user "hi"]).length ≤
      none.getD (((Conversation.new "c").attempts [.system "Be terse.", .user "hi"]).attempts
        [.assistant "Hello.", .system "Be kind.", .user "again"]).length) ∧
      [.message false .user [.input "Be terse.\n\nhi"]] <+:
        codex.items [.system "Be terse.", .user "hi", .assistant "Hello.", .user "again"] := by
  have hmn : none.getD ((Conversation.new "c").attempts [.system "Be terse.", .user "hi"]).length ≤
      none.getD (((Conversation.new "c").attempts [.system "Be terse.", .user "hi"]).attempts
        [.assistant "Hello.", .system "Be kind.", .user "again"]).length := by decide
  exact ⟨hmn, (input_stays codex "c" [.system "Be terse.", .user "hi"]
    [.assistant "Hello.", .system "Be kind.", .user "again"] hmn).items
      (.taken ⟨.user "hi", by decide, rfl⟩)⟩

/-- A system text that waits for a user turn does not stay. -/
example :
    ¬ codex.items [.system "Be terse."] <+: codex.items [.system "Be terse.", .user "hi"] := by
  decide

end Courier.Profile
