import Courier.Proofs.Json.Laying
import Courier.Wire.Item
import Mathlib.Data.List.Basic

/-!
# What the text of items tells

Messages, calls, outputs and reasoning are written as objects of different shapes, without a common
tag: a message may say that it is one, or not. So it has to be shown that the text of one item is
never that of another. **`items_text_eq_iff`** says that the texts of two lists of items are the
same exactly if the items are, but for what only this side knows: whether a tool succeeded is not
written (`Item.bare`), and all else is.

The text of a value without numbers tells it from any other (`Value.Numberless.render_inj`), so it
is enough to look at the values. The member `type` tells the kinds of items from each other
(`Item.typeName?_eq`); items of one kind are then compared member by member.
-/

namespace Courier.Wire

open Courier.Json

/-! ## Parts of an item -/

/-- Roles are told apart by their names. -/
theorem Role.name_injective : Function.Injective Role.name := by
  intro r s h
  cases r <;> cases s <;> first | rfl | exact absurd h (by decide)

/-- Texts of one type are told apart by their values. -/
theorem typedText_injective (type : String) : Function.Injective (typedText type) := by
  intro s t h
  unfold typedText at h
  simp_all

/-- Content is told apart by its value. -/
theorem Content.encode_injective : Function.Injective Content.encode := by
  intro c d h
  unfold encode typedText at h
  cases c <;> cases d <;> simp_all

/-- A text that may be left out is told from any other, and from none. -/
theorem member?_string_injective (name : String) :
    Function.Injective (member? name Value.string) := by
  intro s t h
  unfold member? at h
  cases s <;> cases t <;> simp_all

/-- There is no number in a text with its type. -/
theorem numberless_typedText (type text : String) : (typedText type text).Numberless :=
  .object (by simp [Value.Numberless.string])

/-- There is no number in content. -/
theorem Content.numberless_encode (c : Content) : c.encode.Numberless := by
  cases c <;> exact numberless_typedText _ _

namespace Item

/-- There is no number in an item. -/
theorem numberless_encode (i : Item) : i.encode.Numberless := by
  cases i with
  | message wrapped role content =>
    have hcontent : (Value.array (content.map Content.encode)).Numberless :=
      .array (by simp [Content.numberless_encode])
    cases wrapped <;> exact .object (by simp [member, Value.Numberless.string, hcontent])
  | call callId name arguments => exact .object (by simp [Value.Numberless.string])
  | output callId o => exact .object (by simp [Value.Numberless.string])
  | reasoning id summary encrypted =>
    have hsummary : (Value.array (summary.map (typedText "summary_text"))).Numberless :=
      .array (by simp [numberless_typedText])
    cases encrypted <;>
      exact .object (by simp [member, member?, Value.Numberless.string, hsummary])

/-! ## Whole items -/

/-- An item without what only this side knows: whether a tool succeeded. -/
def bare : Item → Item
  | .output callId o => .output callId { o with success := none }
  | item => item

/-- What an item says that it is. -/
def typeName? : Item → Option String
  | .message true _ _ => some "message"
  | .message false _ _ => none
  | .call .. => some "function_call"
  | .output .. => some "function_call_output"
  | .reasoning .. => some "reasoning"

/-- An item is written with what it says that it is. -/
theorem lookup_type (i : Item) :
    ∃ ms, i.encode = .object ms ∧ ms.lookup "type" = i.typeName?.map .string := by
  cases i with
  | message wrapped role content => cases wrapped <;> exact ⟨_, rfl, rfl⟩
  | call callId name arguments => exact ⟨_, rfl, rfl⟩
  | output callId o => exact ⟨_, rfl, rfl⟩
  | reasoning id summary encrypted => exact ⟨_, rfl, rfl⟩

variable {i j : Item}

/-- Items that are written alike say that they are the same. -/
theorem typeName?_eq (h : i.encode = j.encode) : i.typeName? = j.typeName? := by
  obtain ⟨ms, hi, hms⟩ := i.lookup_type
  obtain ⟨ns, hj, hns⟩ := j.lookup_type
  have hmembers : ms = ns := Value.object.inj (hi.symm.trans (h.trans hj))
  rw [hmembers, hns] at hms
  exact (Option.map_injective (fun _ _ => Value.string.inj) hms).symm

/-- What only this side knows is not written. -/
theorem encode_bare (i : Item) : i.bare.encode = i.encode := by
  cases i <;> rfl

/-- Messages that are written alike are the same. -/
theorem message_inj {wrapped wrapped' : Bool} {role role' : Role} {content content' : List Content}
    (h : (message wrapped role content).encode = (message wrapped' role' content').encode) :
    message wrapped role content = message wrapped' role' content' := by
  have htype := typeName?_eq h
  obtain rfl : wrapped = wrapped' := by
    cases wrapped <;> cases wrapped' <;> simp_all [typeName?]
  obtain ⟨hrole, hcontent⟩ : role.name = role'.name ∧
      content.map Content.encode = content'.map Content.encode := by
    simpa [encode, member] using h
  rw [Role.name_injective hrole, Content.encode_injective.list_map hcontent]

/-- Reasoning that is written alike is the same. -/
theorem reasoning_inj {id id' : String} {summary summary' : List String}
    {encrypted encrypted' : Option String}
    (h : (reasoning id summary encrypted).encode = (reasoning id' summary' encrypted').encode) :
    reasoning id summary encrypted = reasoning id' summary' encrypted' := by
  obtain ⟨hid, hsummary, hencrypted⟩ : id = id' ∧
      summary.map (typedText "summary_text") = summary'.map (typedText "summary_text") ∧
      member? "encrypted_content" Value.string encrypted =
        member? "encrypted_content" Value.string encrypted' := by
    simpa [encode, member] using h
  rw [hid, (typedText_injective _).list_map hsummary, member?_string_injective _ hencrypted]

/-- Items that are written alike differ in nothing else. -/
theorem bare_eq_of_encode_eq (h : i.encode = j.encode) : i.bare = j.bare := by
  have htype := typeName?_eq h
  cases i with
  | message wrapped role content =>
    cases j with
    | message wrapped' role' content' => exact message_inj h
    | _ => cases wrapped <;> simp [typeName?] at htype
  | call callId name arguments =>
    cases j with
    | message wrapped => cases wrapped <;> simp [typeName?] at htype
    | call callId' name' arguments' => simpa [encode, bare] using h
    | _ => simp [typeName?] at htype
  | output callId o =>
    cases j with
    | message wrapped => cases wrapped <;> simp [typeName?] at htype
    | output callId' o' => simpa [encode, bare] using h
    | _ => simp [typeName?] at htype
  | reasoning id summary encrypted =>
    cases j with
    | message wrapped => cases wrapped <;> simp [typeName?] at htype
    | reasoning id' summary' encrypted' => exact reasoning_inj h
    | _ => simp [typeName?] at htype

/-- **Items are written alike exactly if they differ in nothing but what only this side knows.** -/
theorem encode_eq_iff : i.encode = j.encode ↔ i.bare = j.bare := by
  constructor
  · exact bare_eq_of_encode_eq
  · intro h
    rw [← encode_bare i, h, encode_bare]

end Item

/-! ## Lists of items -/

/-- There is no number in a list of items. -/
theorem numberless_encodeItems (items : List Item) : (encodeItems items).Numberless :=
  .array (by simp [Item.numberless_encode])

/-- **The text of items tells everything about them but whether the tools succeeded.** -/
theorem items_text_eq_iff (xs ys : List Item) :
    (encodeItems xs).render = (encodeItems ys).render ↔ xs.map Item.bare = ys.map Item.bare := by
  rw [(numberless_encodeItems xs).render_inj (numberless_encodeItems ys)]
  unfold encodeItems
  rw [Value.array.injEq]
  induction xs generalizing ys with
  | nil => cases ys <;> simp
  | cons x xs ih =>
    cases ys with
    | nil => simp
    | cons y ys => simp [Item.encode_eq_iff, ih]

end Courier.Wire
