import Courier.Json.Parser
import Courier.Proofs.Json.Numbers

/-!
# Values are laid out again

A value that the printer has written is laid out as `Value.laid`: **`layOut_render`** for a value
on one line and **`layOut_renderPretty`** for one over several lines. Both are cases of
`layOut_chars`, for any spacing that puts only white space between the tokens.

That is the value itself, apart from its numbers: an infinity or NaN is laid out as the `null` that
is written for it, and another number as what its text is read as. A value without numbers is laid
out as it is (`Value.Numberless.laid_eq`).

A number is the only value that does not tell by itself where it ends, so what follows a value must
not go on with one (`Ends`); between the tokens of a value nothing does. Each level of nesting and
each item takes one unit of the fuel, and a character of the text, so the number of characters is
enough of it.
-/

namespace Courier.Json

open Courier.Text

/-! ## What a value is laid out as -/

/-- A number as it is laid out from its text. -/
def Number.laid (n : Number) : Reading :=
  if n.isFinite then (layNumber (octetsOf n.chars)).1 else .null

mutual

/-- A value as it is laid out from its text. -/
def Value.laid : Value → Reading
  | .null => .null
  | .bool b => .bool b
  | .number n => n.laid
  | .string s => .string (.ok s)
  | .array items => .array (itemsLaid items) none
  | .object members => .object (membersLaid members) none

/-- The items of an array, as they are laid out from their texts. -/
def itemsLaid : List Value → List Reading
  | [] => []
  | v :: vs => Value.laid v :: itemsLaid vs

/-- The members of an object, as they are laid out from their texts. -/
def membersLaid : List (String × Value) → List (Except Fault String × Reading)
  | [] => []
  | (name, v) :: ms => (.ok name, Value.laid v) :: membersLaid ms

end

/-- Items are laid out one by one. -/
theorem itemsLaid_eq (vs : List Value) : itemsLaid vs = vs.map Value.laid := by
  induction vs with
  | nil => rfl
  | cons v vs ih => rw [itemsLaid, ih, List.map_cons]

/-- Members are laid out one by one. -/
theorem membersLaid_eq (ms : List (String × Value)) :
    membersLaid ms = ms.map fun m => (.ok m.1, m.2.laid) := by
  induction ms with
  | nil => rfl
  | cons m ms ih => rw [membersLaid, ih, List.map_cons]

/-- What holds of all leaves, and of all that is made of values it holds of, holds of every
value. -/
@[elab_as_elim]
theorem Value.induction {P : Value → Prop} (null : P .null) (bool : ∀ b, P (.bool b))
    (number : ∀ n, P (.number n)) (string : ∀ s, P (.string s))
    (array : ∀ items : List Value, (∀ v ∈ items, P v) → P (.array items))
    (object : ∀ members : List (String × Value), (∀ m ∈ members, P m.2) → P (.object members)) :
    ∀ v, P v
  | .null => null
  | .bool b => bool b
  | .number n => number n
  | .string s => string s
  | .array items => array items fun v _ =>
    Value.induction null bool number string array object v
  | .object members => object members fun m _ =>
    Value.induction null bool number string array object m.2
termination_by v => sizeOf v
decreasing_by
  · have := List.sizeOf_lt_of_mem ‹v ∈ items›
    simp only [Value.array.sizeOf_spec]
    omega
  · have hmember := List.sizeOf_lt_of_mem ‹m ∈ members›
    have hvalue : sizeOf m.2 < sizeOf m := by
      cases m
      simp only [Prod.mk.sizeOf_spec]
      omega
    simp only [Value.object.sizeOf_spec]
    omega

/-! ## Values without numbers -/

/-- There is no number in a value. -/
inductive Value.Numberless : Value → Prop where
  /-- The value `null`. -/
  | null : Numberless .null
  /-- A truth value. -/
  | bool (b : Bool) : Numberless (.bool b)
  /-- A text. -/
  | string (s : String) : Numberless (.string s)
  /-- Values without numbers in a row. -/
  | array {items : List Value} (h : ∀ v ∈ items, Numberless v) : Numberless (.array items)
  /-- Named values without numbers in a row. -/
  | object {members : List (String × Value)} (h : ∀ m ∈ members, Numberless m.2) :
      Numberless (.object members)

/-- A value without numbers is laid out as it is. -/
theorem Value.Numberless.laid_eq {v : Value} (h : v.Numberless) : v.laid = v.reading := by
  induction h with
  | null => rfl
  | bool b => rfl
  | string s => rfl
  | @array items h ih =>
    have hitems : itemsLaid items = itemReadings items := by
      clear h
      induction items with
      | nil => rfl
      | cons v vs hvs =>
        obtain ⟨hv, hall⟩ := List.forall_mem_cons.mp ih
        rw [itemsLaid, itemReadings, hv, hvs hall]
    rw [Value.laid, Value.reading, hitems]
  | @object members h ih =>
    have hmembers : membersLaid members = memberReadings members := by
      clear h
      induction members with
      | nil => rfl
      | cons m ms hms =>
        obtain ⟨hm, hall⟩ := List.forall_mem_cons.mp ih
        rw [membersLaid, memberReadings, hm, hms hall]
    rw [Value.laid, Value.reading, hmembers]

/-! ## White space -/

/-- There is nothing but white space. -/
def Gap (bs : List UInt8) : Prop :=
  ∀ b ∈ bs, isGap b = true

/-- Only white space stands between the tokens, apart from the colon. -/
structure Spacing.White (sp : Spacing) : Prop where
  gap : ∀ level, Gap (octetsOf (sp.gap level))
  colon : ∃ bs, octetsOf sp.colon = 0x3A :: bs ∧ Gap bs

/-- Compact text has no spacing that is not white. -/
theorem Spacing.white_compact : Spacing.compact.White where
  gap _ := by simp [Gap, Spacing.compact]
  colon := ⟨[], rfl, by simp [Gap]⟩

/-- Nor has text in lines. -/
theorem Spacing.white_pretty : Spacing.pretty.White where
  gap level := by
    have hgap : octetsOf (Spacing.pretty.gap level) = 0x0A :: List.replicate (2 * level) 0x20 := by
      show 0x0A :: octetsOf (List.replicate (2 * level) ' ') = _
      congr 1
      induction 2 * level with
      | zero => rfl
      | succ k ih =>
        rw [List.replicate_succ, List.replicate_succ, ← ih]
        rfl
    intro b hb
    rw [hgap, List.mem_cons, List.mem_replicate] at hb
    rcases hb with rfl | ⟨-, rfl⟩ <;> rfl
  colon := ⟨[0x20], rfl, by simp [Gap]; rfl⟩

variable {gs bs : List UInt8} {b : UInt8}

/-- Nothing is skipped where no gap is. -/
theorem skipGap_cons (h : isGap b = false) (bs : List UInt8) : skipGap (b :: bs) = b :: bs :=
  List.dropWhile_cons_of_neg (by simp [h])

/-- A gap is skipped. -/
theorem skipGap_append (h : Gap gs) (bs : List UInt8) : skipGap (gs ++ bs) = skipGap bs :=
  List.dropWhile_append_of_pos h

/-- White space in front of a value does not matter. -/
theorem layValue_gap (h : Gap gs) (fuel : Nat) (bs : List UInt8) :
    layValue fuel (gs ++ bs) = layValue fuel bs := by
  cases fuel with
  | zero => rfl
  | succ fuel => rw [layValue, layValue, skipGap_append h]

/-- White space in front of an item does not matter. -/
theorem layItems_gap (h : Gap gs) (fuel : Nat) (bs : List UInt8) :
    layItems fuel (gs ++ bs) = layItems fuel bs := by
  cases fuel with
  | zero => rfl
  | succ fuel => rw [layItems, layItems, layValue_gap h]

/-- White space in front of a member does not matter. -/
theorem layMembers_gap (h : Gap gs) (fuel : Nat) (bs : List UInt8) :
    layMembers fuel (gs ++ bs) = layMembers fuel bs := by
  cases fuel with
  | zero => rfl
  | succ fuel => rw [layMembers, layMembers, skipGap_append h]

/-- White space does not go on with a number. -/
theorem Ends.gap (hgs : Gap gs) {rest : List UInt8} (hrest : Ends rest) : Ends (gs ++ rest) := by
  cases gs with
  | nil => exact hrest
  | cons g gs =>
    intro b hb
    have hgap : isGap g = true := hgs g List.mem_cons_self
    rw [← Option.some.inj hb]
    simp only [isGap, isChar, Bool.or_eq_true, beq_iff_eq, Char.reduceToNat] at hgap
    simp only [isDigit, isChar, Bool.and_eq_false_iff, decide_eq_false_iff_not, beq_eq_false_iff_ne,
      Char.reduceToNat, ne_eq]
    omega

/-! ## What values start with -/

/-- A text that is written stands between two quotes. -/
theorem octetsOf_stringChars (s : String) :
    octetsOf (stringChars s) = 0x22 :: (octetsOf (s.toList.flatMap escapeChar) ++ [0x22]) := by
  rw [stringChars, List.cons_append, ← List.singleton_append, octetsOf_append, octetsOf_append]
  rfl

/-- A minus sign or a digit is no other character. -/
theorem isChar_eq_false (h : (isChar '-' b || isDigit b) = true) {c : Char}
    (hminus : c.toNat ≠ 0x2D) (hdigit : c.toNat < 0x30 ∨ 0x39 < c.toNat) :
    isChar c b = false := by
  simp only [isChar, isDigit, Bool.or_eq_true, beq_iff_eq, Bool.and_eq_true, decide_eq_true_eq,
    Char.reduceToNat] at h
  simp only [isChar, beq_eq_false_iff_ne]
  omega

/-- A minus sign or a digit is no white space. -/
theorem isGap_eq_false (h : (isChar '-' b || isDigit b) = true) : isGap b = false := by
  have hne : ∀ c : Char, c.toNat < 0x2D → isChar c b = false := fun c hc =>
    isChar_eq_false h (by omega) (.inl (by omega))
  simp [isGap, hne]

/-- A finite number starts with a minus sign or a digit. -/
theorem Number.exists_octet {n : Number} (h : n.isFinite = true) :
    ∃ b bs, octetsOf n.chars = b :: bs ∧ (isChar '-' b || isDigit b) = true := by
  obtain ⟨w, hw⟩ := Number.exists_written h
  obtain ⟨b, bs, hoctets, hb, -⟩ := w.exists_octet
  exact ⟨b, bs, hw ▸ hoctets, hb⟩

/-- A number that is not finite is written as `null`. -/
theorem Number.chars_of_not_finite {n : Number} (h : n.isFinite = false) :
    n.chars = "null".toList := by
  cases n with
  | int n => cases h
  | float x =>
    cases x with
    | finite negative significand scale => cases h
    | infinite negative => rfl
    | nan => rfl

/-- A value starts neither with white space nor with what ends an array. -/
theorem Value.exists_octet (v : Value) (sp : Spacing) (level : Nat) :
    ∃ b bs, octetsOf (v.chars sp level) = b :: bs ∧ isGap b = false ∧ isChar ']' b = false := by
  cases v with
  | null => exact ⟨_, _, rfl, rfl, rfl⟩
  | bool b => cases b <;> exact ⟨_, _, rfl, rfl, rfl⟩
  | number n =>
    cases hn : n.isFinite with
    | true =>
      obtain ⟨b, bs, hoctets, hb⟩ := Number.exists_octet hn
      exact ⟨b, bs, hoctets, isGap_eq_false hb, isChar_eq_false hb (by decide) (by decide)⟩
    | false =>
      rw [Value.chars, n.chars_of_not_finite hn]
      exact ⟨_, _, rfl, rfl, rfl⟩
  | string s => exact ⟨_, _, octetsOf_stringChars s, rfl, rfl⟩
  | array items => cases items <;> exact ⟨_, _, rfl, rfl, rfl⟩
  | object members =>
    cases members with
    | nil => exact ⟨_, _, rfl, rfl, rfl⟩
    | cons m ms => exact ⟨_, _, rfl, rfl, rfl⟩

/-! ## Rows -/

/-- With fuel for its characters, a value is laid out again, whatever follows where it ends. -/
def LaysBack (sp : Spacing) (v : Value) : Prop :=
  ∀ level fuel rest, (v.chars sp level).length ≤ fuel → Ends rest →
    layValue fuel (octetsOf (v.chars sp level) ++ rest) = (v.laid, some rest)

variable {sp : Spacing}

/-- An item of an array is laid out again; what comes next is told by the octet after it. -/
theorem layItems_item {v : Value} (hv : LaysBack sp v) {level fuel : Nat}
    (hfuel : (v.chars sp level).length ≤ fuel) {rest after : List UInt8} (hends : Ends rest)
    (hnext : skipGap rest = b :: after) :
    layItems (fuel + 1) (octetsOf (v.chars sp level) ++ rest) =
      Row.onto v.laid
        (if isChar ',' b then layItems fuel after
        else if isChar ']' b then Row.closed after
        else Row.stopped .malformed) := by
  rw [layItems, hv level fuel rest hfuel hends]
  simp only [hnext]

/-- The items of an array are laid out again, up to the bracket. -/
theorem layItems_chars (hsp : sp.White) {v : Value} {vs : List Value}
    (hv : ∀ w ∈ v :: vs, LaysBack sp w) {level fuel : Nat}
    (hfuel : (v.chars sp level).length + (itemsChars sp level vs).length < fuel) (hgs : Gap gs)
    (rest : List UInt8) :
    layItems fuel (octetsOf (v.chars sp level) ++
        (octetsOf (itemsChars sp level vs) ++ (gs ++ 0x5D :: rest))) =
      (v.laid :: itemsLaid vs, none, some rest) := by
  induction vs generalizing v fuel with
  | nil =>
    cases fuel with
    | zero => cases hfuel
    | succ fuel =>
      have hend : skipGap (gs ++ 0x5D :: rest) = 0x5D :: rest := by
        rw [skipGap_append hgs]
        rfl
      simp only [itemsChars, octetsOf_nil, List.nil_append]
      rw [layItems_item (hv v List.mem_cons_self) (by omega)
        (.gap hgs (.cons ⟨rfl, rfl, rfl, rfl⟩ rest)) hend]
      rfl
  | cons w ws ih =>
    cases fuel with
    | zero => cases hfuel
    | succ fuel =>
      obtain ⟨hv, hws⟩ := List.forall_mem_cons.mp hv
      have hoctets : octetsOf (itemsChars sp level (w :: ws)) = 0x2C ::
          (octetsOf (sp.gap level) ++ (octetsOf (w.chars sp level) ++
            octetsOf (itemsChars sp level ws))) := by
        simp only [← octetsOf_append, ← List.append_assoc]
        rfl
      have hlength : (itemsChars sp level (w :: ws)).length = (sp.gap level).length + 1 +
          (w.chars sp level).length + (itemsChars sp level ws).length := by
        simp [itemsChars]
        omega
      have hlt : (w.chars sp level).length + (itemsChars sp level ws).length < fuel := by omega
      simp only [hoctets, List.cons_append, List.append_assoc]
      rw [layItems_item hv (by omega) (.cons ⟨rfl, rfl, rfl, rfl⟩ _) (skipGap_cons rfl _)]
      show Row.onto v.laid (layItems fuel _) = _
      rw [layItems_gap (hsp.gap level), ih hws hlt]
      rfl

/-- A member of an object is laid out again; what comes next is told by the octet after it. -/
theorem layMembers_member (hsp : sp.White) {name : String} {v : Value} (hv : LaysBack sp v)
    {level fuel : Nat} (hfuel : (v.chars sp level).length ≤ fuel) {rest after : List UInt8}
    (hends : Ends rest) (hnext : skipGap rest = b :: after) :
    layMembers (fuel + 1) (octetsOf (stringChars name) ++ (octetsOf sp.colon ++
        (octetsOf (v.chars sp level) ++ rest))) =
      Row.onto (.ok name, v.laid)
        (if isChar ',' b then layMembers fuel after
        else if isChar '\x7d' b then Row.closed after
        else Row.stopped .malformed) := by
  obtain ⟨blanks, hcolon, hblanks⟩ := hsp.colon
  have hquote : isChar '"' 0x22 = true := rfl
  have hmark : isChar ':' 0x3A = true := rfl
  rw [octetsOf_stringChars, hcolon, List.cons_append, List.append_assoc, List.singleton_append,
    layMembers, skipGap_cons rfl]
  simp only [hquote, if_true, scanText_escaped, List.cons_append]
  rw [skipGap_cons rfl]
  simp only [hmark, if_true, layValue_gap hblanks, hv level fuel rest hfuel hends, hnext]

/-- The members of an object are laid out again, up to the bracket. -/
theorem layMembers_chars (hsp : sp.White) {m : String × Value} {ms : List (String × Value)}
    (hm : ∀ n ∈ m :: ms, LaysBack sp n.2) {level fuel : Nat}
    (hfuel : (m.2.chars sp level).length + (membersChars sp level ms).length < fuel) (hgs : Gap gs)
    (rest : List UInt8) :
    layMembers fuel (octetsOf (stringChars m.1) ++ (octetsOf sp.colon ++
        (octetsOf (m.2.chars sp level) ++
          (octetsOf (membersChars sp level ms) ++ (gs ++ 0x7D :: rest))))) =
      ((.ok m.1, m.2.laid) :: membersLaid ms, none, some rest) := by
  induction ms generalizing m fuel with
  | nil =>
    cases fuel with
    | zero => cases hfuel
    | succ fuel =>
      have hend : skipGap (gs ++ 0x7D :: rest) = 0x7D :: rest := by
        rw [skipGap_append hgs]
        rfl
      simp only [membersChars, octetsOf_nil, List.nil_append]
      rw [layMembers_member hsp (hm m List.mem_cons_self) (by omega)
        (.gap hgs (.cons ⟨rfl, rfl, rfl, rfl⟩ rest)) hend]
      rfl
  | cons n ms ih =>
    cases fuel with
    | zero => cases hfuel
    | succ fuel =>
      obtain ⟨hm, hms⟩ := List.forall_mem_cons.mp hm
      have hoctets : octetsOf (membersChars sp level (n :: ms)) = 0x2C ::
          (octetsOf (sp.gap level) ++ (octetsOf (stringChars n.1) ++ (octetsOf sp.colon ++
            (octetsOf (n.2.chars sp level) ++ octetsOf (membersChars sp level ms))))) := by
        simp only [← octetsOf_append, ← List.append_assoc]
        rfl
      have hlength : (membersChars sp level (n :: ms)).length = (sp.gap level).length + 1 +
          (stringChars n.1).length + sp.colon.length + (n.2.chars sp level).length +
          (membersChars sp level ms).length := by
        simp [membersChars]
        omega
      have hlt : (n.2.chars sp level).length + (membersChars sp level ms).length < fuel := by omega
      simp only [hoctets, List.cons_append, List.append_assoc]
      rw [layMembers_member hsp hm (by omega) (.cons ⟨rfl, rfl, rfl, rfl⟩ _)
        (skipGap_cons rfl _)]
      show Row.onto _ (layMembers fuel _) = _
      rw [layMembers_gap (hsp.gap level), ih hms hlt]
      rfl

/-! ## Values -/

/-- An array is laid out again if its items are. -/
theorem laysBack_array (hsp : sp.White) {items : List Value}
    (hback : ∀ v ∈ items, LaysBack sp v) : LaysBack sp (.array items) := by
  intro level fuel rest hfuel hends
  cases fuel with
  | zero => cases items <;> cases hfuel
  | succ fuel =>
    cases items with
    | nil => rfl
    | cons v vs =>
      obtain ⟨b, bs, hv, hgap, hbracket⟩ := v.exists_octet sp (level + 1)
      have hoctets : octetsOf ((Value.array (v :: vs)).chars sp level) ++ rest = 0x5B ::
          (octetsOf (sp.gap (level + 1)) ++ (octetsOf (v.chars sp (level + 1)) ++
            (octetsOf (itemsChars sp (level + 1) vs) ++
              (octetsOf (sp.gap level) ++ 0x5D :: rest)))) := by
        have hend : (0x5D :: rest : List UInt8) = octetsOf [']'] ++ rest := rfl
        simp only [hend, ← octetsOf_append, ← List.append_assoc]
        rfl
      have hlength : ((Value.array (v :: vs)).chars sp level).length =
          (sp.gap (level + 1)).length + (v.chars sp (level + 1)).length +
          (itemsChars sp (level + 1) vs).length + (sp.gap level).length + 2 := by
        simp [Value.chars]
        omega
      have hlt : (v.chars sp (level + 1)).length +
          (itemsChars sp (level + 1) vs).length < fuel := by omega
      have hrow := layItems_chars hsp hback hlt (hsp.gap level) rest
      rw [← layItems_gap (hsp.gap (level + 1))] at hrow
      have hfirst : ∀ xs, skipGap (octetsOf (sp.gap (level + 1)) ++
          (octetsOf (v.chars sp (level + 1)) ++ xs)) = b :: (bs ++ xs) := by
        intro xs
        rw [skipGap_append (hsp.gap _), hv, List.cons_append, skipGap_cons hgap]
      have hquote : isChar '"' 0x5B = false := rfl
      have hopen : isChar '[' 0x5B = true := rfl
      rw [hoctets, layValue, skipGap_cons rfl]
      simp only [hquote, hopen, hfirst, hbracket, hrow, Bool.false_eq_true, if_false, if_true]
      rfl

/-- An object is laid out again if its members are. -/
theorem laysBack_object (hsp : sp.White) {members : List (String × Value)}
    (hback : ∀ m ∈ members, LaysBack sp m.2) : LaysBack sp (.object members) := by
  intro level fuel rest hfuel hends
  cases fuel with
  | zero => cases members <;> cases hfuel
  | succ fuel =>
    cases members with
    | nil => rfl
    | cons m ms =>
      have hoctets : octetsOf ((Value.object (m :: ms)).chars sp level) ++ rest = 0x7B ::
          (octetsOf (sp.gap (level + 1)) ++ (octetsOf (stringChars m.1) ++ (octetsOf sp.colon ++
            (octetsOf (m.2.chars sp (level + 1)) ++ (octetsOf (membersChars sp (level + 1) ms) ++
              (octetsOf (sp.gap level) ++ 0x7D :: rest)))))) := by
        have hend : (0x7D :: rest : List UInt8) = octetsOf ['\x7d'] ++ rest := rfl
        simp only [hend, ← octetsOf_append, ← List.append_assoc]
        rfl
      have hlength : ((Value.object (m :: ms)).chars sp level).length =
          (sp.gap (level + 1)).length + (stringChars m.1).length + sp.colon.length +
          (m.2.chars sp (level + 1)).length + (membersChars sp (level + 1) ms).length +
          (sp.gap level).length + 2 := by
        simp [Value.chars]
        omega
      have hlt : (m.2.chars sp (level + 1)).length + (membersChars sp (level + 1) ms).length <
          fuel := by omega
      have hrow := layMembers_chars hsp hback hlt (hsp.gap level) rest
      rw [← layMembers_gap (hsp.gap (level + 1))] at hrow
      have hfirst : ∀ xs, skipGap (octetsOf (sp.gap (level + 1)) ++
          (octetsOf (stringChars m.1) ++ xs)) =
            0x22 :: (octetsOf (m.1.toList.flatMap escapeChar) ++ [0x22] ++ xs) := by
        intro xs
        rw [skipGap_append (hsp.gap _), octetsOf_stringChars, List.cons_append, skipGap_cons rfl]
      have hquote : isChar '"' 0x7B = false := rfl
      have hbracket : isChar '[' 0x7B = false := rfl
      have hopen : isChar '\x7b' 0x7B = true := rfl
      have hbrace : isChar '\x7d' 0x22 = false := rfl
      rw [hoctets, layValue, skipGap_cons rfl]
      simp only [hquote, hbracket, hopen, hfirst, hbrace, hrow, Bool.false_eq_true, if_false,
        if_true]
      rfl

/-- A minus sign or a digit starts a number. -/
theorem layValue_number (h : (isChar '-' b || isDigit b) = true) (fuel : Nat) (bs : List UInt8) :
    layValue (fuel + 1) (b :: bs) = layNumber (b :: bs) := by
  have hne : ∀ c : Char, c.toNat ≠ 0x2D → c.toNat < 0x30 ∨ 0x39 < c.toNat → isChar c b = false :=
    fun c => isChar_eq_false h
  rw [layValue, skipGap_cons (isGap_eq_false h)]
  simp [hne, h]

/-- What a number is written as is laid out as its numeral, whatever follows where it ends. -/
theorem Written.layNumber_chars (w : Written) {rest : List UInt8} (hrest : Ends rest) :
    layNumber (octetsOf w.chars ++ rest) = (.number w.numeral.number, some rest) := by
  rw [layNumber, w.scan_chars hrest]

/-- A finite number is laid out as the numeral that is written for it. -/
theorem Number.laid_eq {n : Number} (h : n.isFinite = true) {w : Written} (hw : w.chars = n.chars) :
    n.laid = .number w.numeral.number := by
  have hlaid := w.layNumber_chars Ends.nil
  rw [List.append_nil, hw] at hlaid
  rw [Number.laid, if_pos h, hlaid]

/-- A finite number is laid out as a number, whatever follows where it ends. -/
theorem Number.exists_laid {n : Number} (h : n.isFinite = true) :
    ∃ x, n.laid = .number x ∧
      ∀ rest, Ends rest → layNumber (octetsOf n.chars ++ rest) = (n.laid, some rest) := by
  obtain ⟨w, hw⟩ := Number.exists_written h
  rw [Number.laid_eq h hw]
  refine ⟨_, rfl, fun rest hrest => ?_⟩
  rw [← hw]
  exact w.layNumber_chars hrest

/-- A number is laid out from its text, up to its end. -/
theorem laysBack_number (n : Number) : LaysBack sp (.number n) := by
  intro level fuel rest hfuel hends
  rw [Value.chars] at hfuel ⊢
  cases hn : n.isFinite with
  | true =>
    obtain ⟨b, bs, hoctets, hb⟩ := Number.exists_octet hn
    obtain ⟨x, -, hlaid⟩ := Number.exists_laid hn
    cases fuel with
    | zero =>
      rw [List.length_eq_zero_iff.mp (Nat.le_zero.mp hfuel)] at hoctets
      cases hoctets
    | succ fuel =>
      have hrest := hlaid rest hends
      rw [hoctets, List.cons_append] at hrest ⊢
      rw [layValue_number hb, hrest, Value.laid]
  | false =>
    rw [n.chars_of_not_finite hn] at hfuel ⊢
    rw [Value.laid, Number.laid, if_neg (by simp [hn])]
    cases fuel with
    | zero => cases hfuel
    | succ fuel => rfl

/-- **A value is laid out again**, if what follows does not go on with it. -/
theorem Value.laysBack (hsp : sp.White) (v : Value) : LaysBack sp v := by
  induction v using Value.induction with
  | null =>
    intro level fuel rest hfuel hends
    cases fuel with
    | zero => cases hfuel
    | succ fuel => rfl
  | bool b =>
    intro level fuel rest hfuel hends
    cases fuel with
    | zero => cases b <;> cases hfuel
    | succ fuel => cases b <;> rfl
  | number n => exact laysBack_number n
  | string s =>
    intro level fuel rest hfuel hends
    cases fuel with
    | zero => cases hfuel
    | succ fuel =>
      have hquote : isChar '"' 0x22 = true := rfl
      rw [Value.chars, octetsOf_stringChars, List.cons_append, List.append_assoc,
        List.singleton_append, layValue, skipGap_cons rfl]
      simp only [hquote, if_true, layText, scanText_escaped]
      rfl
  | array items ih => exact laysBack_array hsp ih
  | object members ih => exact laysBack_object hsp ih

/-! ## Whole texts -/

/-- A character has at least one octet. -/
theorem length_le_length_octetsOf (cs : List Char) : cs.length ≤ (octetsOf cs).length := by
  induction cs with
  | nil => exact Nat.le_refl 0
  | cons c cs ih =>
    have hpos : 0 < (String.utf8EncodeChar c).length := by
      rw [String.length_utf8EncodeChar]
      exact c.utf8Size_pos
    have hlength : (octetsOf (c :: cs)).length =
        (String.utf8EncodeChar c).length + (octetsOf cs).length := by simp [octetsOf]
    rw [List.length_cons]
    omega

/-- A value is laid out again from its text. -/
theorem layOut_chars (hsp : sp.White) (v : Value) :
    layOut (octetsOf (v.chars sp 0)) = (v.laid, none) := by
  have hlength := length_le_length_octetsOf (v.chars sp 0)
  have hlaid := v.laysBack hsp 0 (2 * (octetsOf (v.chars sp 0)).length + 2) [] (by omega) Ends.nil
  rw [List.append_nil] at hlaid
  rw [layOut, hlaid]
  rfl

/-- **A value is laid out again from one line.** -/
theorem Value.layOut_render (v : Value) : layOut (octets v.render) = (v.laid, none) := by
  rw [Value.render, octets_ofList]
  exact layOut_chars Spacing.white_compact v

/-- **A value is laid out again from several lines.** -/
theorem Value.layOut_renderPretty (v : Value) :
    layOut (octets v.renderPretty) = (v.laid, none) := by
  rw [Value.renderPretty, octets_ofList]
  exact layOut_chars Spacing.white_pretty v

/-! ## Skipping -/

/-- Nothing is wrong with a value that is skipped. -/
theorem Value.skip_laid (v : Value) : v.laid.skip = none := by
  induction v using Value.induction with
  | null => rfl
  | bool b => rfl
  | number n =>
    cases hn : n.isFinite with
    | true =>
      obtain ⟨x, hx, -⟩ := Number.exists_laid hn
      rw [Value.laid, hx, Reading.skip]
    | false => rw [Value.laid, Number.laid, if_neg (by simp [hn]), Reading.skip]
  | string s => rfl
  | array items ih =>
    have hitems : skipItems (itemsLaid items) = none := by
      induction items with
      | nil => rfl
      | cons v vs hvs =>
        obtain ⟨hv, hall⟩ := List.forall_mem_cons.mp ih
        rw [itemsLaid, skipItems, hv, hvs hall]
        rfl
    rw [Value.laid, Reading.skip, hitems]
    rfl
  | object members ih =>
    have hmembers : skipMembers (membersLaid members) = none := by
      induction members with
      | nil => rfl
      | cons m ms hms =>
        obtain ⟨hm, hall⟩ := List.forall_mem_cons.mp ih
        rw [membersLaid, skipMembers, hm, hms hall]
        rfl
    rw [Value.laid, Reading.skip, hmembers]
    rfl

/-! ## Telling values apart -/

/-- A value is told from any other by how it is laid out when it is at hand. -/
theorem Value.eq_of_reading_eq {v w : Value} (h : v.reading = w.reading) : v = w := by
  induction v using Value.induction generalizing w with
  | null => cases w <;> cases h; rfl
  | bool b => cases w <;> cases h; rfl
  | number n => cases w <;> cases h; rfl
  | string s => cases w <;> cases h; rfl
  | array items ih =>
    cases w with
    | array others =>
      have hrow : itemReadings items = itemReadings others := (Reading.array.inj h).1
      clear h
      congr 1
      induction items generalizing others with
      | nil => cases others <;> cases hrow; rfl
      | cons v vs hvs =>
        obtain ⟨hv, hall⟩ := List.forall_mem_cons.mp ih
        cases others with
        | nil => cases hrow
        | cons w ws =>
          obtain ⟨hfirst, hrest⟩ := List.cons.inj hrow
          rw [hv hfirst, hvs hall ws hrest]
    | _ => cases h
  | object members ih =>
    cases w with
    | object others =>
      have hrow : memberReadings members = memberReadings others := (Reading.object.inj h).1
      clear h
      congr 1
      induction members generalizing others with
      | nil => cases others <;> cases hrow; rfl
      | cons m ms hms =>
        obtain ⟨hm, hall⟩ := List.forall_mem_cons.mp ih
        cases others with
        | nil => cases hrow
        | cons n ns =>
          obtain ⟨hfirst, hrest⟩ := List.cons.inj hrow
          obtain ⟨hname, hvalue⟩ := Prod.mk.inj hfirst
          rw [Prod.ext (Except.ok.inj hname) (hm hvalue), hms hall ns hrest]
    | _ => cases h

/-- **A value without numbers is told from any other such value by its text.** -/
theorem Value.Numberless.render_inj {v w : Value} (hv : v.Numberless) (hw : w.Numberless) :
    v.render = w.render ↔ v = w := by
  constructor
  · intro h
    have hlaid : layOut (octets v.render) = layOut (octets w.render) := by rw [h]
    rw [Value.layOut_render, Value.layOut_render, hv.laid_eq, hw.laid_eq] at hlaid
    exact Value.eq_of_reading_eq (Prod.mk.inj hlaid).1
  · rintro rfl
    rfl

end Courier.Json
