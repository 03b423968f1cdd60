import Courier.Config.Basic
import Courier.Proofs.Json.Records
import Courier.Proofs.Wire.Assembly

/-!
# What is left out of a body

An option that a backend does not accept, or that nobody has set, is left out of the body of a
request; it is not sent as `null`. **`Request.body_of_make`** says that of the text that is sent, by
what it is laid out as: an object with the members that are `Sent`, each of them once, and each of
them `Proper`, with no `null` and no repeated name at any depth.

There is one exception. A temperature that is infinite or NaN is a number to the profile, and it is
written as `null`; so the body is proper exactly if the temperature, where there is one, is finite.
A configuration file can set such a temperature: `Request.null_of_infinite_temperature` is a run
from the text of a file to the text of a body.
-/

namespace Courier

open Courier.Json Courier.Numeric Courier.Text

/-! ## Proper readings -/

namespace Json

/-- A reading that is laid out to its end, with no `null` in it and no object that has two members
of one name. -/
inductive Reading.Proper : Reading → Prop where
  /-- A truth value. -/
  | bool (b : Bool) : Proper (.bool b)
  /-- A number, even one that is too large to be read. -/
  | number (n : Except Fault Number) : Proper (.number n)
  /-- A text. -/
  | string (s : String) : Proper (.string (.ok s))
  /-- Proper readings in a row. -/
  | array {items : List Reading} (h : ∀ r ∈ items, Proper r) : Proper (.array items none)
  /-- Proper readings with different names. -/
  | object {members : List (String × Reading)} (hnames : (members.map Prod.fst).Nodup)
      (h : ∀ m ∈ members, Proper m.2) : Proper (.named members)

/-- A `null` is not proper. -/
theorem Reading.not_proper_null : ¬ Reading.null.Proper := by
  generalize hr : Reading.null = r
  rintro (_ | _ | _ | _ | _) <;> cases hr

/-- A row is proper if all in it are. -/
theorem Reading.proper_array_iff {items : List Reading} :
    (Reading.array items none).Proper ↔ ∀ r ∈ items, r.Proper := by
  refine ⟨fun h => ?_, .array⟩
  cases h with
  | array h => exact h

/-- An object is proper if its names differ and all its members are proper. -/
theorem Reading.proper_named_iff {members : List (String × Reading)} :
    (Reading.named members).Proper ↔
      (members.map Prod.fst).Nodup ∧ ∀ m ∈ members, m.2.Proper := by
  refine ⟨fun h => ?_, fun h => .object h.1 h.2⟩
  generalize hr : Reading.named members = r at h
  cases h with
  | @object others hnames h =>
    have hinj : Function.Injective fun m : String × Reading =>
        ((.ok m.1 : Except Fault String), m.2) := by
      rintro ⟨name, r⟩ ⟨other, s⟩ heq
      cases heq
      rfl
    have hmembers : members = others :=
      List.map_injective_iff.mpr hinj (Reading.object.inj hr).1
    rw [hmembers]
    exact ⟨hnames, h⟩
  | _ => cases hr

namespace Value

/-- A truth value is proper. -/
@[simp] theorem proper_bool (b : Bool) : (Value.bool b).laid.Proper :=
  .bool b

/-- A text is proper. -/
@[simp] theorem proper_string (s : String) : (Value.string s).laid.Proper :=
  .string s

/-- A number is proper if it is finite. -/
@[simp] theorem proper_number {n : Number} :
    (Value.number n).laid.Proper ↔ n.isFinite = true := by
  rw [laid]
  cases hn : n.isFinite with
  | true =>
    obtain ⟨x, hx, -⟩ := Number.exists_laid hn
    rw [hx]
    simp [Reading.Proper.number]
  | false =>
    rw [Number.laid, if_neg (by simp [hn])]
    simp [Reading.not_proper_null]

/-- A row of values is proper if all of them are. -/
@[simp] theorem proper_array {items : List Value} :
    (Value.array items).laid.Proper ↔ ∀ v ∈ items, v.laid.Proper := by
  rw [laid, itemsLaid_eq, Reading.proper_array_iff, List.forall_mem_map]

/-- An object is proper if its names differ and the values of its members are proper. -/
@[simp] theorem proper_object {ms : List (String × Value)} :
    (Value.object ms).laid.Proper ↔
      (ms.map Prod.fst).Nodup ∧ ∀ m ∈ ms, m.2.laid.Proper := by
  rw [laid_object, Reading.proper_named_iff, laidMembers, List.map_map, List.forall_mem_map]
  rfl

end Value

/-! ## Members that may be left out -/

section

variable {α : Type} {encode : α → Value} {name : String} {a : Option α}

/-- A member that may be left out has its name once or not at all. -/
theorem member?_names_sublist (encode : α → Value) (name : String) (a : Option α) :
    ((member? name encode a).map Prod.fst).Sublist [name] := by
  cases a with
  | none => exact List.nil_sublist _
  | some a => exact List.Sublist.refl _

/-- Its name is there if there is a value for it. -/
@[simp] theorem mem_member?_names {n : String} :
    n ∈ (member? name encode a).map Prod.fst ↔ a.isSome = true ∧ n = name := by
  cases a with
  | none => simp [member?]
  | some a => simp [member?]

/-- What holds of a member that may be left out is what holds of its value, if there is one. -/
@[simp] theorem forall_mem_member? {P : String × Value → Prop} :
    (∀ m ∈ member? name encode a, P m) ↔ ∀ x ∈ a, P (name, encode x) := by
  cases a with
  | none => simp [member?]
  | some a => simp [member?]

end

end Json

/-! ## What a request is made of -/

namespace Wire

open Courier.Dialogue Courier.Profile

/-- A text with its type is proper. -/
theorem proper_typedText (type text : String) : (typedText type text).laid.Proper := by
  simp [typedText]

/-- Content is proper. -/
theorem Content.proper_encode (c : Content) : c.encode.laid.Proper := by
  cases c <;> exact proper_typedText _ _

/-- Every item is proper, whatever its texts are. -/
theorem Item.proper_encode (i : Item) : i.encode.laid.Proper := by
  cases i with
  | message wrapped role content =>
    cases wrapped <;> simp [encode, member, Content.proper_encode]
  | call callId name arguments => simp [encode]
  | output callId o => simp [encode]
  | reasoning id summary encrypted =>
    cases encrypted <;> simp [encode, member, member?, proper_typedText]

/-- What is said about reasoning is proper. -/
theorem Reasoning.proper_encode (r : Reasoning) : r.encode.laid.Proper := by
  obtain ⟨effort, summary⟩ := r
  cases summary <;> simp [encode, member, member?]

namespace SentOptions

/-- All options are proper but for a temperature that is not finite. -/
theorem proper_members (o : SentOptions) :
    (∀ m ∈ o.members, m.2.laid.Proper) ↔ ∀ x ∈ o.temperature, x.isFinite = true := by
  simp only [members, List.forall_mem_append, forall_mem_member?]
  simp [Value.nat, Number.isFinite, Reasoning.proper_encode]

/-- A temperature that is not finite is `null`. -/
theorem proper_or_null (o : SentOptions) :
    ∀ m ∈ o.members, m.2.laid.Proper ∨ (m.1, m.2.laid) = ("temperature", .null) := by
  simp only [members, List.forall_mem_append, forall_mem_member?]
  have htemperature : ∀ x ∈ o.temperature, (Value.number (.float x)).laid.Proper ∨
      ("temperature", (Value.number (.float x)).laid) = ("temperature", .null) := by
    intro x _
    cases hx : (Number.float x).isFinite with
    | true => exact .inl (Value.proper_number.mpr hx)
    | false => exact .inr (by rw [Value.laid, Number.laid, if_neg (by simp [hx])])
  refine ⟨⟨⟨⟨⟨⟨?_, htemperature⟩, ?_⟩, ?_⟩, ?_⟩, ?_⟩, ?_⟩ <;>
    simp [Value.nat, Number.isFinite, Reasoning.proper_encode]

/-- The names of the options, in their order. -/
def names : List String :=
  ["max_output_tokens", "temperature", "tool_choice", "reasoning", "include", "store", "stream"]

/-- The options have names of their own, in this order. -/
theorem members_names_sublist (o : SentOptions) : (o.members.map Prod.fst).Sublist names := by
  simp only [members, List.map_append]
  exact ((((((member?_names_sublist _ _ _).append (member?_names_sublist _ _ _)).append
    (member?_names_sublist _ _ _)).append (member?_names_sublist _ _ _)).append
    (member?_names_sublist _ _ _)).append (member?_names_sublist _ _ _)).append
    (member?_names_sublist _ _ _)

end SentOptions

/-! ## The body -/

/-- The names of the members that a backend of this profile is sent. -/
inductive Sent (p : Profile) (o : CallOptions) : String → Prop where
  /-- Which model is asked. -/
  | model : Sent p o "model"
  /-- What it is told to do. -/
  | instructions : Sent p o "instructions"
  /-- What it is asked. -/
  | input : Sent p o "input"
  /-- The caller has bounded the answer, and the backend accepts that. -/
  | maxOutputTokens (h : p.allowsMaxOutputTokens = true) (ho : o.maxOutputTokens.isSome = true) :
      Sent p o "max_output_tokens"
  /-- The profile has a temperature. -/
  | temperature (h : p.temperature.isSome = true) : Sent p o "temperature"
  /-- The profile has a tool choice. -/
  | toolChoice (h : p.toolChoice.isSome = true) : Sent p o "tool_choice"
  /-- The caller wants an effort, and the backend accepts that. -/
  | reasoning (h : p.allowsReasoning = true) (ho : o.effort.isSome = true) :
      Sent p o "reasoning"
  /-- There is something to include, and the backend accepts that. -/
  | extras (h : p.allowsReasoning = true) (ho : p.resolvedExtras o ≠ []) : Sent p o "include"
  /-- The profile says what is kept, or the backend accepts that the caller says it. -/
  | store (h : p.forcedStore.isSome = true ∨ p.allowsStore = true) : Sent p o "store"
  /-- The backend answers in pieces only. -/
  | stream (h : p.requiresStreaming = true) : Sent p o "stream"

section

variable {p : Profile} {o : CallOptions}

/-- The answer is bounded if the caller bounds it and the backend accepts that. -/
theorem permit_maxOutputTokens_isSome : (p.permit o).maxOutputTokens.isSome = true ↔
    p.allowsMaxOutputTokens = true ∧ o.maxOutputTokens.isSome = true := by
  cases hallows : p.allowsMaxOutputTokens <;> simp [permit, hallows]

/-- An effort is asked for if the caller wants it and the backend accepts that. -/
theorem permit_reasoning_isSome : (p.permit o).reasoning.isSome = true ↔
    p.allowsReasoning = true ∧ o.effort.isSome = true := by
  cases hallows : p.allowsReasoning <;> simp [permit, hallows]

/-- Extras are asked for if there are any and the backend accepts that. -/
theorem permit_extras_isSome : (p.permit o).extras.isSome = true ↔
    p.allowsReasoning = true ∧ p.resolvedExtras o ≠ [] := by
  by_cases hsome : p.allowsReasoning = true ∧ p.resolvedExtras o ≠ [] <;> simp [permit, hsome]

/-- It is said what is kept if the profile says it or the backend accepts that. -/
theorem permit_store_isSome : (p.permit o).store.isSome = true ↔
    p.forcedStore.isSome = true ∨ p.allowsStore = true := by
  cases hforced : p.forcedStore <;> cases hallows : p.allowsStore <;>
    simp [permit, resolvedStore, hforced, hallows]

/-- An answer in pieces is asked for if the backend gives no other. -/
theorem permit_stream_isSome : (p.permit o).stream.isSome = true ↔
    p.requiresStreaming = true := by
  cases hrequires : p.requiresStreaming <;> simp [permit, hrequires]

end

namespace Request

variable {s : Snapshot} {p : Profile} {o : CallOptions} {r : Request}

/-- The members of a body. -/
def members (r : Request) : List (String × Value) :=
  [("model", .string r.model), ("instructions", .string r.instructions),
    ("input", encodeItems r.input)] ++ r.options.members

/-- A request is written as the object of its members. -/
theorem encode_eq (r : Request) : r.encode = .object r.members := rfl

/-- No two members of a body have one name. -/
theorem nodup_members (r : Request) : (r.members.map Prod.fst).Nodup := by
  have hsublist : (r.members.map Prod.fst).Sublist
      (["model", "instructions", "input"] ++ SentOptions.names) := by
    rw [members, List.map_append]
    exact (List.Sublist.refl _).append r.options.members_names_sublist
  exact hsublist.nodup (by decide)

/-- Every member is proper, or it is the temperature and `null`. -/
theorem proper_or_null (r : Request) :
    ∀ m ∈ r.members, m.2.laid.Proper ∨ (m.1, m.2.laid) = ("temperature", .null) := by
  rw [members, List.forall_mem_append]
  refine ⟨?_, r.options.proper_or_null⟩
  simp [encodeItems, Item.proper_encode]

/-- The body is proper but for a temperature that is not finite. -/
theorem proper_members (r : Request) :
    (∀ m ∈ r.members, m.2.laid.Proper) ↔ ∀ x ∈ r.options.temperature, x.isFinite = true := by
  rw [members, List.forall_mem_append, r.options.proper_members]
  simp [encodeItems, Item.proper_encode]

/-- The names of the members are those that are sent. -/
theorem mem_names_iff (h : r.options = p.permit o) (name : String) :
    name ∈ r.members.map Prod.fst ↔ Sent p o name := by
  simp only [members, h, SentOptions.members, List.map_append, List.mem_append,
    mem_member?_names, permit_maxOutputTokens_isSome, permit_reasoning_isSome,
    permit_extras_isSome, permit_store_isSome, permit_stream_isSome]
  constructor
  · rintro (hfront | (((((⟨⟨ha, ho⟩, rfl⟩ | ⟨ht, rfl⟩) | ⟨hc, rfl⟩) | ⟨⟨ha, ho⟩, rfl⟩) |
      ⟨⟨ha, ho⟩, rfl⟩) | ⟨hs, rfl⟩) | ⟨hs, rfl⟩)
    · simp only [List.map_cons, List.map_nil, List.mem_cons, List.not_mem_nil, or_false] at hfront
      obtain rfl | rfl | rfl := hfront
      · exact .model
      · exact .instructions
      · exact .input
    · exact .maxOutputTokens ha ho
    · exact .temperature ht
    · exact .toolChoice hc
    · exact .reasoning ha ho
    · exact .extras ha ho
    · exact .store hs
    · exact .stream hs
  · intro hsent
    cases hsent <;> simp_all [permit]

/-- A request that is made has the options that its backend accepts. -/
theorem options_of_make (h : make s p o = .ok r) : r.options = p.permit o := by
  rw [eq_of_make h]

/-! ## A backend that takes no options -/

/-- The profile of a backend that takes no options. -/
def lab (temperature : Binary64) : Profile where
  backendId := "lab"
  endpointUrl := "http://lab/"
  instructions := ""
  model := "small"
  wrapsMessages := false
  movesSystem := false
  allowsMaxOutputTokens := false
  allowsStore := false
  forcedStore := none
  temperature := some temperature
  toolChoice := none
  allowsReasoning := false
  supportsReasoning := false
  requiresPairing := true
  requiresStreaming := false
  originator := defaultOriginator
  userAgent := none
  headers := .empty

/-- A request to that backend. -/
def labRequest (temperature : Binary64) : Request where
  model := "small"
  instructions := ""
  input := [.message false .user [.input "hello"]]
  options := (lab temperature).permit {}

/-- That request can be made. -/
theorem make_lab (x : Binary64) :
    make ⟨"session", [.user "hello"]⟩ (lab x) {} = .ok (labRequest x) := rfl

/-- A configuration file that sets the temperature of that backend to infinity. -/
def labText : String :=
  "default_profile=\"lab\"\n[profiles.lab]\nbackend_id=\"lab\"\n"
    ++ "endpoint_url=\"http://lab/\"\nmodel_name=\"small\"\ntemperature=inf"

/-- The configuration of that file. -/
def labConfig : Config :=
  ⟨"lab", Profile.builtins.insert "lab" (lab (.infinite false)), {}⟩

/-- That file makes that configuration. -/
theorem ofText_labText : Config.ofText (.root .empty) labText = .ok labConfig := by
  have hparse : Config.Document.parse? labText =
      some ⟨some "lab", [("lab", ⟨lab (.infinite false), none⟩)], {}⟩ := by decide +kernel
  rw [Config.ofText, hparse]
  rfl

/-! ## The text of a body -/

/-- **The body of a request**, as its text is laid out, is an object with the members that are sent,
each of them once. No `null` and no repeated name is in them but for a temperature that is not
finite, which is `null` itself. -/
theorem body_of_make (h : make s p o = .ok r) :
    ∃ members : List (String × Reading),
      layOut (octets r.encode.render) = (.named members, none) ∧
      (members.map Prod.fst).Nodup ∧
      (∀ name, name ∈ members.map Prod.fst ↔ Sent p o name) ∧
      (∀ m ∈ members, m.2.Proper ∨ m = ("temperature", .null)) ∧
      ((∀ m ∈ members, m.2.Proper) ↔ ∀ x ∈ p.temperature, x.isFinite = true) := by
  have hoptions := options_of_make h
  have hnames : (laidMembers r.members).map Prod.fst = r.members.map Prod.fst := List.map_map
  have htemperature : r.options.temperature = p.temperature := by rw [hoptions, permit]
  refine ⟨laidMembers r.members, ?_, ?_, ?_, ?_, ?_⟩
  · rw [Value.layOut_render, encode_eq, laid_object]
  · rw [hnames]
    exact r.nodup_members
  · rw [hnames]
    exact mem_names_iff hoptions
  · rw [laidMembers, List.forall_mem_map]
    exact r.proper_or_null
  · rw [laidMembers, List.forall_mem_map, r.proper_members, htemperature]

/-- With a finite temperature the body has it, and nothing else that could be left out. -/
theorem body_of_make_lab :
    make ⟨"session", [.user "hello"]⟩ (lab (.zero false)) {} = .ok (labRequest (.zero false)) ∧
    ∃ members : List (String × Reading),
      layOut (octets (labRequest (.zero false)).encode.render) = (.named members, none) ∧
      "temperature" ∈ members.map Prod.fst ∧ "store" ∉ members.map Prod.fst ∧
      ∀ m ∈ members, m.2.Proper := by
  obtain ⟨members, hlaid, -, hnames, -, hproper⟩ := body_of_make (make_lab (.zero false))
  refine ⟨make_lab _, members, hlaid, (hnames _).mpr (.temperature rfl), ?_, hproper.mpr ?_⟩
  · rw [hnames]
    intro hsent
    generalize hname : "store" = name at hsent
    cases hsent with
    | store h => exact absurd h (by decide)
    | _ => exact absurd hname (by decide)
  · rintro x ⟨⟩
    rfl

/-- **A configuration file can bring a `null` into a body**: it sets an infinite temperature. -/
theorem null_of_infinite_temperature :
    ∃ c p r, Config.ofText (.root .empty) labText = .ok c ∧ c.activeProfile = .ok p ∧
      make ⟨"session", [.user "hello"]⟩ p {} = .ok r ∧
      r.encode.render = "\x7b\"model\":\"small\",\"instructions\":\"\",\"input\":["
        ++ "\x7b\"role\":\"user\",\"content\":["
        ++ "\x7b\"type\":\"input_text\",\"text\":\"hello\"\x7d]\x7d],\"temperature\":null\x7d" ∧
      ¬ (layOut (octets r.encode.render)).1.Proper := by
  refine ⟨labConfig, lab (.infinite false), labRequest (.infinite false), ofText_labText, rfl,
    make_lab _, by decide +kernel, ?_⟩
  rw [Value.layOut_render, encode_eq, Value.proper_object, proper_members]
  rintro ⟨-, hfinite⟩
  exact absurd (hfinite _ rfl) (by decide)

end Request

end Wire

end Courier
