import Courier.Proofs.Wire.Body

/-!
# What else an answer is to include

A caller gives a list of what else the answer is to include, and a backend may be sent it with one
entry more: where nothing is kept, reasoning has to come back in encrypted form, if the caller wants
that and the list does not ask for it already (`Wanting`). So whether anything is added depends on
what the backend is told about keeping (`Keeps`), and not only on what the caller says about it.

**`Profile.permit_including`** says which list is sent, for every profile and all options, down to
the members of the request. A list that was sent is not `Wanting` any more, so it comes out as it
is when it is given as the list of a caller: `Profile.permit_extras_permit`.
-/

namespace Courier

open Courier.Json Courier.Wire

namespace Profile

variable {p : Profile} {o : CallOptions} {sent : SentOptions}

/-! ## What is kept -/

/-- What a backend is told about keeping the answer. -/
inductive Keeps (p : Profile) (o : CallOptions) : Option Bool → Prop where
  /-- What the profile says, whatever the caller wants. -/
  | forced {b : Bool} (hforced : p.forcedStore = some b) : Keeps p o (some b)
  /-- What the caller says, to a backend that may be told. -/
  | caller {b : Bool} (hforced : p.forcedStore = none) (hallows : p.allowsStore = true)
      (ho : o.store = some b) : Keeps p o (some b)
  /-- To keep nothing, where the caller is silent. -/
  | silent (hforced : p.forcedStore = none) (hallows : p.allowsStore = true)
      (ho : o.store = none) : Keeps p o (some false)
  /-- Nothing, where the backend does not take the option. -/
  | untold (hforced : p.forcedStore = none) (hallows : p.allowsStore = false) : Keeps p o none

/-- What is resolved is what is to be kept. -/
theorem keeps_resolvedStore (p : Profile) (o : CallOptions) : Keeps p o (p.resolvedStore o) := by
  unfold resolvedStore
  match hforced : p.forcedStore, hallows : p.allowsStore, ho : o.store with
  | some _, _, _ => exact .forced hforced
  | none, true, some _ => exact .caller hforced hallows ho
  | none, true, none => exact .silent hforced hallows ho
  | none, false, _ => exact .untold hforced hallows

/-! ## What is added -/

/-- A list lacks an entry that its caller wants, with what the backend is told about keeping. -/
structure Wanting (store : Option Bool) (o : CallOptions) : Prop where
  /-- The caller wants reasoning in encrypted form. -/
  wished : o.encryptedReasoning = true
  /-- The backend is not told to keep the answer. -/
  unkept : store ≠ some true
  /-- The list does not ask for it. -/
  missing : "reasoning.encrypted_content" ∉ o.extras

/-- When the entry is wanting, as it is tested. -/
theorem wanting_iff {store : Option Bool} : Wanting store o ↔
    store ≠ some true ∧ o.encryptedReasoning ∧ !o.extras.contains encryptedReasoningEntry := by
  have hmissing : "reasoning.encrypted_content" ∉ o.extras ↔
      (!o.extras.contains encryptedReasoningEntry) = true := by
    rw [Bool.not_eq_true', ← Bool.not_eq_true, List.contains_iff_mem]
    exact Iff.rfl
  exact ⟨fun h => ⟨h.unkept, h.wished, hmissing.1 h.missing⟩,
    fun h => ⟨h.2.1, h.1, hmissing.2 h.2.2⟩⟩

/-- A list in which the entry is wanting gets it at its end. -/
theorem resolvedExtras_of_wanting (h : Wanting (p.resolvedStore o) o) :
    p.resolvedExtras o = o.extras ++ ["reasoning.encrypted_content"] :=
  if_pos (wanting_iff.1 h)

/-- Any other list stays as it is. -/
theorem resolvedExtras_of_not_wanting (h : ¬ Wanting (p.resolvedStore o) o) :
    p.resolvedExtras o = o.extras :=
  if_neg fun hwanting => h (wanting_iff.2 hwanting)

/-- The list that comes out lacks nothing. -/
theorem not_wanting_resolvedExtras (p : Profile) (o : CallOptions) :
    ¬ Wanting (p.resolvedStore o) { o with extras := p.resolvedExtras o } := by
  intro hwanting
  by_cases h : Wanting (p.resolvedStore o) o
  · apply hwanting.missing
    show "reasoning.encrypted_content" ∈ p.resolvedExtras o
    rw [resolvedExtras_of_wanting h]
    exact List.mem_append_right _ List.mem_cons_self
  · apply h
    refine ⟨hwanting.wished, hwanting.unkept, ?_⟩
    rw [← resolvedExtras_of_not_wanting h]
    exact hwanting.missing

/-- A list that has come out comes out again. -/
theorem resolvedExtras_resolvedExtras (p : Profile) (o : CallOptions) :
    p.resolvedExtras { o with extras := p.resolvedExtras o } = p.resolvedExtras o :=
  resolvedExtras_of_not_wanting (not_wanting_resolvedExtras p o)

/-! ## What is sent -/

/-- Where the backend takes such a list, it is sent as it comes out, unless it is empty. -/
theorem permit_extras_of_allows (h : p.allowsReasoning = true) : (p.permit o).extras =
    if p.resolvedExtras o = [] then none else some (p.resolvedExtras o) := by
  unfold permit
  by_cases hempty : p.resolvedExtras o = []
  · rw [if_pos hempty]
    exact if_neg fun hsent => hsent.2 hempty
  · rw [if_neg hempty]
    exact if_pos ⟨h, hempty⟩

/-- Where it is refused, none is sent. -/
theorem permit_extras_of_refuses (h : p.allowsReasoning = false) : (p.permit o).extras = none :=
  if_neg fun hsent => Bool.false_ne_true (h.symm.trans hsent.1)

/-- What is sent of a list depends on nothing else of it than on what comes out of it. -/
theorem permit_congr_extras {l : List String}
    (h : p.allowsReasoning = true → p.resolvedExtras { o with extras := l } = p.resolvedExtras o) :
    p.permit { o with extras := l } = p.permit o := by
  have hextras : (p.permit { o with extras := l }).extras = (p.permit o).extras := by
    cases hallows : p.allowsReasoning with
    | true => rw [permit_extras_of_allows hallows, permit_extras_of_allows hallows, h hallows]
    | false => rw [permit_extras_of_refuses hallows, permit_extras_of_refuses hallows]
  -- the other options are the same already
  exact congrArg (fun extras => { p.permit o with extras }) hextras

/-- **A list that was sent is sent again**, when it is given as the list of a caller. -/
theorem permit_extras_permit (p : Profile) (o : CallOptions) :
    p.permit { o with extras := (p.permit o).extras.getD [] } = p.permit o := by
  apply permit_congr_extras
  intro hallows
  have hlist : (p.permit o).extras.getD [] = p.resolvedExtras o := by
    rw [permit_extras_of_allows hallows]
    split
    · next hempty => exact hempty.symm
    · rfl
  rw [hlist, resolvedExtras_resolvedExtras]

/-! ## The members of a request -/

/-- A member that may be left out is there if there is a value for it. -/
theorem mem_member?_iff {α : Type} {encode : α → Value} {name : String} {a : Option α}
    {m : String × Value} : m ∈ member? name encode a ↔ ∃ x ∈ a, m = (name, encode x) := by
  cases a <;> simp [member?]

/-- What is sent as the list of extras is the list that is permitted. -/
theorem include_mem_members_iff {v : Value} : ("include", v) ∈ sent.members ↔
    ∃ names ∈ sent.extras, v = .array (names.map .string) := by
  simp [SentOptions.members, mem_member?_iff]

/-- The list of extras is sent if one is permitted. -/
theorem include_mem_names_iff :
    "include" ∈ sent.members.map Prod.fst ↔ sent.extras.isSome = true := by
  simp [SentOptions.members, mem_member?_names]

/-- Something is said about reasoning if that is permitted. -/
theorem reasoning_mem_names_iff :
    "reasoning" ∈ sent.members.map Prod.fst ↔ sent.reasoning.isSome = true := by
  simp [SentOptions.members, mem_member?_names]

/-- What is sent of a list to include. -/
structure Including (p : Profile) (o : CallOptions) (sent : SentOptions) : Prop where
  /-- What the backend is told about keeping. -/
  keeps : Keeps p o sent.store
  /-- Where an entry is wanting, it comes after those of the caller. -/
  asked : p.allowsReasoning = true → Wanting sent.store o →
    sent.extras = some (o.extras ++ ["reasoning.encrypted_content"])
  /-- Where it is not, the list of the caller is sent as it is, unless it is empty. -/
  unasked : p.allowsReasoning = true → ¬ Wanting sent.store o →
    sent.extras = if o.extras = [] then none else some o.extras
  /-- A list that is sent is a member of the request. -/
  member : ∀ v, ("include", v) ∈ sent.members ↔
    ∃ names ∈ sent.extras, v = .array (names.map .string)
  /-- A backend that does not take such options is sent neither a list nor an effort. -/
  refused : p.allowsReasoning = false →
    "include" ∉ sent.members.map Prod.fst ∧ "reasoning" ∉ sent.members.map Prod.fst

/-- **The list to include** that a backend is sent, for every profile and all options; and sending
it again changes nothing. -/
theorem permit_including (p : Profile) (o : CallOptions) : Including p o (p.permit o) ∧
    p.permit { o with extras := (p.permit o).extras.getD [] } = p.permit o := by
  refine ⟨⟨keeps_resolvedStore p o, fun hallows hwanting => ?_, fun hallows hwanting => ?_,
    fun v => include_mem_members_iff, fun hrefuses => ⟨?_, ?_⟩⟩, permit_extras_permit p o⟩
  · rw [permit_extras_of_allows hallows, resolvedExtras_of_wanting hwanting]
    exact if_neg (List.append_ne_nil_of_right_ne_nil _ (List.cons_ne_nil _ _))
  · rw [permit_extras_of_allows hallows, resolvedExtras_of_not_wanting hwanting]
  · rw [include_mem_names_iff, permit_extras_isSome, hrefuses]
    exact fun h => Bool.false_ne_true h.1
  · rw [reasoning_mem_names_iff, permit_reasoning_isSome, hrefuses]
    exact fun h => Bool.false_ne_true h.1

/-- Nothing is kept, and reasoning is asked for behind the entry of the caller. -/
example :
    let p : Profile := { (default : Profile) with allowsReasoning := true }
    let o : CallOptions := { encryptedReasoning := true, extras := ["file_search.results"] }
    (p.permit o).extras = some ["file_search.results", "reasoning.encrypted_content"] := by
  decide

end Profile

end Courier
