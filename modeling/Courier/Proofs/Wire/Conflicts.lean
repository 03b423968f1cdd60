import Courier.Wire.Correlation
import Mathlib.Order.Basic

/-!
# Which items fit together

`check` goes over the items once and keeps the name of each call that it has met. Here the rules are
stated of the items as a whole, and of any items at all, not only of those that a dialogue makes:

* `Consistent pairing items` says that no rule is broken, by the places of the items;
* `Offends pairing items i e` says that the item at place `i` breaks the rule `e` with those before
  it, whatever else may be wrong.

**`check_exact`** says that the check passes exactly the consistent items and that of all broken
rules it reports the one at the first place; reasoning at the end is reported only if there is no
other. What carries the scan is `Records`: as long as nothing has been reported, the names that are
kept are those of the calls so far, and each id has one name only.
-/

namespace Courier.Wire

open Courier.Dialogue

variable {pairing : Bool}

/-! ## Broken rules -/

/-- An item breaks a rule with those before it. -/
inductive Clashes (pairing : Bool) (before : List Item) : Item → Conflict → Prop where
  /-- An output that needs its call has none before it. -/
  | orphan {callId : String} {output : ToolOutput} (hpairing : pairing = true)
      (hnone : ∀ name arguments, Item.call callId name arguments ∉ before) :
      Clashes pairing before (.output callId output) (.orphanOutput callId)
  /-- A call before it has its id and another name. -/
  | renamed {callId first second arguments arguments' : String}
      (hfirst : Item.call callId first arguments ∈ before) (hne : first ≠ second) :
      Clashes pairing before (.call callId second arguments') (.renamedCall callId first second)

/-- The item at a place of `items` breaks a rule, with those in `before` and those before it in
`items`. -/
def OffendsAfter (pairing : Bool) (before items : List Item) (i : Nat) (e : Conflict) : Prop :=
  ∃ item, items[i]? = some item ∧ Clashes pairing (before ++ items.take i) item e

/-- The item at a place breaks a rule with those before it. -/
def Offends (pairing : Bool) (items : List Item) (i : Nat) (e : Conflict) : Prop :=
  OffendsAfter pairing [] items i e

/-- No rule is broken. -/
structure Consistent (pairing : Bool) (items : List Item) : Prop where
  /-- Where outputs need their calls, each has one before it. -/
  paired : pairing = true → ∀ (i : Nat) callId output,
    items[i]? = some (Item.output callId output) →
      ∃ j < i, ∃ name arguments, items[j]? = some (Item.call callId name arguments)
  /-- Calls of one id have one name. -/
  named : ∀ (i j : Nat) callId name name' arguments arguments',
    items[i]? = some (Item.call callId name arguments) →
      items[j]? = some (Item.call callId name' arguments') → name = name'
  /-- The last item is not reasoning. -/
  last : ∀ id summary encrypted, items.getLast? ≠ some (.reasoning id summary encrypted)

variable {before items rest : List Item} {item : Item} {e : Conflict} {i : Nat}

/-- The first item offends if it clashes with what came before. -/
theorem offendsAfter_zero :
    OffendsAfter pairing before (item :: rest) 0 e ↔ Clashes pairing before item e := by
  simp [OffendsAfter]

/-- A later item offends if it does after one more has come before. -/
theorem offendsAfter_succ :
    OffendsAfter pairing before (item :: rest) (i + 1) e ↔
      OffendsAfter pairing (before ++ [item]) rest i e := by
  simp [OffendsAfter]

/-- No item is at a place where there are none. -/
theorem not_offendsAfter_nil : ¬ OffendsAfter pairing before [] i e := by
  rintro ⟨item, hitem, -⟩
  simp at hitem

/-! ## The scan -/

/-- Calls of one id have one name. -/
def OneName (items : List Item) : Prop :=
  ∀ callId name name' arguments arguments', Item.call callId name arguments ∈ items →
    Item.call callId name' arguments' ∈ items → name = name'

/-- The names that are kept are those of the calls among some items. -/
def Records (calls : Dict String) (items : List Item) : Prop :=
  ∀ callId name, calls.get? callId = some name ↔
    ∃ arguments, Item.call callId name arguments ∈ items

variable {calls : Dict String}

/-- Where nothing came before, nothing is recorded. -/
theorem records_empty : Records .empty [] := by
  simp [Records, Dict.get?_empty]

/-- If the name of each id can be kept, there is only one. -/
theorem Records.oneName (h : Records calls items) : OneName items := by
  intro callId name name' arguments arguments' hcall hcall'
  have hname := (h callId name).mpr ⟨arguments, hcall⟩
  have hname' := (h callId name').mpr ⟨arguments', hcall'⟩
  exact Option.some.inj (hname.symm.trans hname')

/-- An item that is no call leaves the names as they are. -/
theorem Records.concat (h : Records calls before) (hitem : ∀ callId name arguments,
    item ≠ .call callId name arguments) : Records calls (before ++ [item]) := by
  intro callId name
  simp [h callId name, (hitem _ _ _).symm]

/-- The name of a call whose id is new is kept. -/
theorem Records.insert (h : Records calls before) {callId : String}
    (hnew : calls.get? callId = none) (name arguments : String) :
    Records (calls.insert callId name) (before ++ [.call callId name arguments]) := by
  intro k n
  rw [Dict.get?_insert]
  by_cases hk : k = callId
  · have hnone : ∀ arguments, Item.call callId n arguments ∉ before := by
      simpa [hnew] using h callId n
    simp [hk, hnone, eq_comm]
  · simp [hk, h k n]

/-- A call whose id has its name already changes nothing. -/
theorem Records.again (h : Records calls before) {callId name : String}
    (hname : calls.get? callId = some name) (arguments : String) :
    Records calls (before ++ [.call callId name arguments]) := by
  intro k n
  by_cases hk : k = callId ∧ n = name
  · obtain ⟨rfl, rfl⟩ := hk
    exact iff_of_true hname ⟨arguments, by simp⟩
  · have hother : ∀ arguments', Item.call k n arguments' ≠ .call callId name arguments := by
      intro arguments' heq
      cases heq
      exact hk ⟨rfl, rfl⟩
    simp [h k n, hother]

/-- **One step of the scan**: an item that breaks a rule is reported, and after one that does not
the scan goes on with the names of the calls so far. -/
theorem checkCalls_cons (h : Records calls before) (item : Item) (rest : List Item) :
    (∃ e, Clashes pairing before item e ∧
      checkCalls pairing calls (item :: rest) = .error e) ∨
    (∀ e, ¬ Clashes pairing before item e) ∧ ∃ calls', Records calls' (before ++ [item]) ∧
      checkCalls pairing calls (item :: rest) = checkCalls pairing calls' rest := by
  cases item with
  | message wrapped role content => exact .inr ⟨nofun, calls, h.concat (by simp), rfl⟩
  | reasoning id summary encrypted => exact .inr ⟨nofun, calls, h.concat (by simp), rfl⟩
  | output callId output =>
    rw [checkCalls]
    split
    next hmissing =>
      simp only [Bool.and_eq_true, Bool.not_eq_true', Dict.contains, Option.isSome_eq_false_iff,
        Option.isNone_iff_eq_none] at hmissing
      obtain ⟨hpairing, hnone⟩ := hmissing
      refine .inl ⟨_, .orphan hpairing ?_, rfl⟩
      intro name arguments hcall
      cases hnone.symm.trans ((h callId name).mpr ⟨arguments, hcall⟩)
    next hthere =>
      refine .inr ⟨?_, calls, h.concat (by simp), rfl⟩
      rintro e ⟨hpairing, hnone⟩
      apply hthere
      cases hname : calls.get? callId with
      | none => simp [hpairing, Dict.contains, hname]
      | some name =>
        obtain ⟨arguments, hcall⟩ := (h callId name).mp hname
        exact absurd hcall (hnone name arguments)
  | call callId name arguments =>
    rw [checkCalls]
    cases hname : calls.get? callId with
    | none =>
      refine .inr ⟨?_, _, h.insert hname name arguments, rfl⟩
      rintro e ⟨⟩
      rename_i first arguments' hfirst hne
      cases hname.symm.trans ((h callId first).mpr ⟨_, hfirst⟩)
    | some first =>
      obtain ⟨arguments', hcall⟩ := (h callId first).mp hname
      by_cases heq : first = name
      · subst heq
        refine .inr ⟨?_, calls, h.again hname arguments, if_pos rfl⟩
        rintro e ⟨⟩
        rename_i other arguments'' hother hne
        exact hne (h.oneName _ _ _ _ _ hother hcall)
      · exact .inl ⟨_, .renamed hcall heq, if_neg heq⟩

/-- **The whole scan**: the first item that breaks a rule is reported, if there is one. -/
theorem checkCalls_cases (h : Records calls before) (items : List Item) :
    (checkCalls pairing calls items = .ok () ∧ OneName (before ++ items) ∧
      ∀ i e, ¬ OffendsAfter pairing before items i e) ∨
    ∃ i e, checkCalls pairing calls items = .error e ∧ OneName (before ++ items.take i) ∧
      OffendsAfter pairing before items i e ∧
      ∀ j < i, ∀ e', ¬ OffendsAfter pairing before items j e' := by
  induction items generalizing before calls with
  | nil =>
    refine .inl ⟨rfl, ?_, fun _ _ => not_offendsAfter_nil⟩
    rw [List.append_nil]
    exact h.oneName
  | cons item rest ih =>
    rcases checkCalls_cons h item rest with ⟨e, hclash, heq⟩ | ⟨hnone, calls', hcalls', heq⟩
    · refine .inr ⟨0, e, heq, ?_, offendsAfter_zero.mpr hclash, by simp⟩
      rw [List.take_zero, List.append_nil]
      exact h.oneName
    · rw [heq, List.append_cons]
      have hfirst : ∀ e, ¬ OffendsAfter pairing before (item :: rest) 0 e :=
        fun e => offendsAfter_zero.not.mpr (hnone e)
      rcases ih hcalls' with ⟨hok, hnames, hrest⟩ | ⟨i, e, herror, hnames, hoffends, hbefore⟩
      · refine .inl ⟨hok, hnames, ?_⟩
        rintro (_ | i) e
        · exact hfirst e
        · exact offendsAfter_succ.not.mpr (hrest i e)
      · refine .inr ⟨i + 1, e, herror, ?_, offendsAfter_succ.mpr hoffends, ?_⟩
        · rwa [List.take_succ_cons, List.append_cons]
        · rintro (_ | j) hj e'
          · exact hfirst e'
          · exact offendsAfter_succ.not.mpr (hbefore j (by omega) e')

/-! ## What is reported -/

/-- A broken rule is the one to report: it is broken at the first place where one is, or none is
broken but for the reasoning at the end. -/
inductive Reported (pairing : Bool) (items : List Item) : Conflict → Prop where
  /-- The item at the first such place breaks it. -/
  | first {i : Nat} {e : Conflict} (h : Offends pairing items i e)
      (hfirst : ∀ j < i, ∀ e', ¬ Offends pairing items j e') : Reported pairing items e
  /-- The last item is reasoning. -/
  | last {id : String} {summary : List String} {encrypted : Option String}
      (hnone : ∀ i e, ¬ Offends pairing items i e)
      (h : items.getLast? = some (.reasoning id summary encrypted)) :
      Reported pairing items (.trailingReasoning id)

/-- Before the first place where a rule is broken each id has one name. -/
theorem oneName_of_first (h : Offends pairing items i e)
    (hfirst : ∀ j < i, ∀ e', ¬ Offends pairing items j e') : OneName (items.take i) := by
  rcases checkCalls_cases records_empty items with ⟨-, -, hnone⟩ | ⟨k, e', -, hnames, hk, hbefore⟩
  · exact absurd h (hnone i e)
  · rcases Nat.lt_trichotomy i k with hlt | rfl | hlt
    · exact absurd h (hbefore i hlt e)
    · exact hnames
    · exact absurd hk (hfirst k hlt e')

/-- Where each id has one name, an item breaks one rule at most. -/
theorem Clashes.unique (hnames : OneName before) {e' : Conflict}
    (h : Clashes pairing before item e) (h' : Clashes pairing before item e') : e = e' := by
  cases h with
  | orphan => cases h'; rfl
  | renamed hfirst =>
    cases h' with
    | renamed hfirst' => rw [hnames _ _ _ _ _ hfirst hfirst']

/-- There is one broken rule to report at most. -/
theorem Reported.unique {e' : Conflict} (h : Reported pairing items e)
    (h' : Reported pairing items e') : e = e' := by
  cases h with
  | @first i _ h hfirst =>
    cases h' with
    | @first k _ h' hfirst' =>
      have hik : i = k := by
        rcases Nat.lt_trichotomy i k with hlt | heq | hlt
        · exact absurd h (hfirst' i hlt e)
        · exact heq
        · exact absurd h' (hfirst k hlt e')
      subst hik
      obtain ⟨item, hitem, hclash⟩ := h
      obtain ⟨item', hitem', hclash'⟩ := h'
      obtain rfl := Option.some.inj (hitem.symm.trans hitem')
      exact hclash.unique (oneName_of_first ⟨item, hitem, hclash⟩ hfirst) hclash'
    | last hnone => exact absurd h (hnone i e)
  | last hnone h =>
    cases h' with
    | @first k _ h' => exact absurd h' (hnone k e')
    | last _ h' =>
      cases h.symm.trans h'
      rfl

/-- What is among the first items stands at one of their places. -/
theorem mem_take_iff : item ∈ items.take i ↔ ∃ j < i, items[j]? = some item := by
  simp [List.mem_iff_getElem?, List.getElem?_take]

/-- In consistent items no item breaks a rule with those before it. -/
theorem Consistent.not_offends (h : Consistent pairing items) : ¬ Offends pairing items i e := by
  rintro ⟨item, hitem, hclash⟩
  rw [List.nil_append] at hclash
  cases hclash with
  | orphan hpairing hnone =>
    obtain ⟨j, hj, name, arguments, hcall⟩ := h.paired hpairing i _ _ hitem
    exact hnone name arguments (mem_take_iff.mpr ⟨j, hj, hcall⟩)
  | renamed hfirst hne =>
    obtain ⟨j, -, hcall⟩ := mem_take_iff.mp hfirst
    exact hne (h.named j i _ _ _ _ _ hcall hitem)

/-- Consistent items have nothing to report. -/
theorem Consistent.not_reported (h : Consistent pairing items) : ¬ Reported pairing items e := by
  intro hreported
  cases hreported with
  | first hoffends => exact h.not_offends hoffends
  | last _ hlast => exact h.last _ _ _ hlast

/-- Items are consistent if none breaks a rule with those before it and the last one is not
reasoning. -/
theorem consistent_of_not_offends (hnames : OneName items)
    (hnone : ∀ i e, ¬ Offends pairing items i e)
    (hlast : ∀ id summary encrypted, items.getLast? ≠ some (.reasoning id summary encrypted)) :
    Consistent pairing items where
  paired hpairing i callId output hitem := by
    by_contra hmissing
    refine hnone i _ ⟨_, hitem, .orphan hpairing ?_⟩
    intro name arguments hcall
    obtain ⟨j, hj, hcall⟩ := mem_take_iff.mp hcall
    exact hmissing ⟨j, hj, name, arguments, hcall⟩
  named i j callId name name' arguments arguments' hcall hcall' :=
    hnames callId name name' arguments arguments' (List.mem_of_getElem? hcall)
      (List.mem_of_getElem? hcall')
  last := hlast

/-- The check passes consistent items, and otherwise reports what is to be reported. -/
theorem check_cases (pairing : Bool) (items : List Item) :
    (check pairing items = .ok () ∧ Consistent pairing items) ∨
      ∃ e, check pairing items = .error e ∧ Reported pairing items e := by
  unfold check
  rcases checkCalls_cases records_empty items with
    ⟨hok, hnames, hnone⟩ | ⟨i, e, herror, -, hoffends, hbefore⟩
  · rw [hok]
    by_cases hlast : ∃ id summary encrypted,
        items.getLast? = some (.reasoning id summary encrypted)
    · obtain ⟨id, summary, encrypted, hlast⟩ := hlast
      rw [hlast]
      exact .inr ⟨_, rfl, .last hnone hlast⟩
    · refine .inl ⟨?_, consistent_of_not_offends hnames hnone ?_⟩
      · cases hitem : items.getLast? with
        | none => rfl
        | some item =>
          cases item with
          | reasoning id summary encrypted => exact absurd ⟨id, summary, encrypted, hitem⟩ hlast
          | _ => rfl
      · intro id summary encrypted h
        exact hlast ⟨id, summary, encrypted, h⟩
  · rw [herror]
    exact .inr ⟨e, rfl, .first hoffends hbefore⟩

/-- **The check decides exactly the rules**, for any items. It passes the consistent ones; of those
that are not, it reports the rule that is broken at the first place, and then the name that it
reports beside the new one is that of all calls of the id so far. -/
theorem check_exact (pairing : Bool) (items : List Item) :
    (check pairing items = .ok () ↔ Consistent pairing items) ∧
      (∀ e, check pairing items = .error e ↔ Reported pairing items e) ∧
      ∀ i callId first second, Offends pairing items i (.renamedCall callId first second) →
        (∀ j < i, ∀ e, ¬ Offends pairing items j e) →
        ∀ name arguments, .call callId name arguments ∈ items.take i → name = first := by
  refine ⟨?_, ?_, ?_⟩
  · rcases check_cases pairing items with ⟨hok, hconsistent⟩ | ⟨e, herror, hreported⟩
    · exact iff_of_true hok hconsistent
    · exact iff_of_false (by simp [herror]) fun h => h.not_reported hreported
  · intro e
    rcases check_cases pairing items with ⟨hok, hconsistent⟩ | ⟨e', herror, hreported⟩
    · exact iff_of_false (by simp [hok]) hconsistent.not_reported
    · rw [herror, Except.error.injEq]
      exact ⟨fun h => h ▸ hreported, fun h => hreported.unique h⟩
  · intro i callId first second hoffends hfirst name arguments hcall
    have hnames := oneName_of_first hoffends hfirst
    obtain ⟨item, -, hclash⟩ := hoffends
    cases hclash with
    | renamed hcall' => exact hnames _ _ _ _ _ hcall hcall'

/-- An output without its call comes before a call with another name. -/
example : check true [.call "a" "read" "", .output "b" ⟨"", none⟩, .call "a" "write" ""] =
    .error (.orphanOutput "b") := by
  decide

end Courier.Wire
