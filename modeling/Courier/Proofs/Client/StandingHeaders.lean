import Courier.Client.Basic
import Courier.Proofs.Dictionaries
import Courier.Proofs.Results
import Courier.Proofs.Text.Octets

/-!
# The headers of every request

The headers that a client has from the start are put in one after the other: what the program calls
itself, the user agent, the wish for an answer in pieces, and then the headers of the profile in the
order of their names. Each is checked when its turn comes, and takes the place of one that differs
from it in case only. So all of it is one run over one list of fields (`Client.staticHeaders_eq`),
and what such a run does is said once, for any list: it succeeds exactly if every field can be sent,
the first that cannot is the one that is reported, and under every name the last value stays.

**`Client.staticHeaders_exact`** says what that means for a profile.
-/

namespace Courier

open Courier.Http Courier.Text

/-- A name as it is compared: without regard to case. -/
def Http.Header.lower (s : String) : String :=
  String.ofList (s.toList.map Char.toLower)

namespace Client

open Http.Header (lower)

variable {platform : String} {p : Profile} {name : String} {d d' : Dict String} {e : Error}
  {h : String × String} {hs : List (String × String)}

/-! ## One field -/

/-- A header can be sent: its name is one, and so is its value. -/
structure Sendable (h : String × String) : Prop where
  /-- The name is made of the characters of names. -/
  name : Header.isName h.1 = true
  /-- The value is made of the characters of values. -/
  value : Header.isValue h.2 = true

/-- Why a header cannot be sent. A bad name is reported before a bad value. -/
inductive Refused (h : String × String) : Error → Prop where
  /-- Its name is none. -/
  | name : Header.isName h.1 = false → Refused h (.invalidHeader h.1 "invalid HTTP header name")
  /-- Its value is none. -/
  | value : Header.isName h.1 = true → Header.isValue h.2 = false →
      Refused h (.invalidHeader h.1 "failed to parse header value")

/-- Of some headers the first that cannot be sent is refused with an error. -/
inductive FirstRefused (e : Error) : List (String × String) → Prop where
  /-- It stands in front. -/
  | here {h : String × String} {hs : List (String × String)} : Refused h e →
      FirstRefused e (h :: hs)
  /-- It comes after headers that can be sent. -/
  | later {h : String × String} {hs : List (String × String)} : Sendable h → FirstRefused e hs →
      FirstRefused e (h :: hs)

/-- What is refused cannot be sent. -/
theorem Refused.not_sendable (hr : Refused h e) : ¬ Sendable h := fun hsend => by
  cases hr with
  | name hname => exact Bool.false_ne_true (hname.symm.trans hsend.name)
  | value _ hvalue => exact Bool.false_ne_true (hvalue.symm.trans hsend.value)

/-- The first that is refused stands in front, or comes after one that can be sent. -/
theorem firstRefused_cons_iff :
    FirstRefused e (h :: hs) ↔ Refused h e ∨ Sendable h ∧ FirstRefused e hs := by
  constructor
  · intro hfirst
    cases hfirst with
    | here hr => exact Or.inl hr
    | later hsend hlater => exact Or.inr ⟨hsend, hlater⟩
  · rintro (hr | ⟨hsend, hlater⟩)
    · exact .here hr
    · exact .later hsend hlater

/-- A header that can be sent is passed over. -/
theorem firstRefused_cons_of_sendable (hsend : Sendable h) :
    FirstRefused e (h :: hs) ↔ FirstRefused e hs := by
  rw [firstRefused_cons_iff, or_iff_right fun hr => hr.not_sendable hsend, and_iff_right hsend]

/-- A value passes its check as it is. -/
theorem checkedValue_of_isValue {value : String} (h : Header.isValue value = true) :
    checkedValue name value = .ok value :=
  if_pos h

/-- What is no value is refused under its name. -/
theorem checkedValue_of_not_isValue {value : String} (h : Header.isValue value = false) :
    checkedValue name value = .error (.invalidHeader name "failed to parse header value") :=
  if_neg (by rw [h]; exact Bool.false_ne_true)

/-- A header that can be sent is put in, in lower case. -/
theorem overrideHeader_of_sendable (hsend : Sendable h) (d : Dict String) :
    overrideHeader d h = .ok (d.insert (lower h.1) h.2) := by
  have hname : Header.name? h.1 = some (lower h.1) := if_pos hsend.name
  rw [overrideHeader, hname, checkedValue_of_isValue hsend.value]
  rfl

/-- A header that is refused ends the run with its error. -/
theorem overrideHeader_of_refused (hr : Refused h e) (d : Dict String) :
    overrideHeader d h = .error e := by
  cases hr with
  | name hname =>
    have hnone : Header.name? h.1 = none := if_neg (by rw [hname]; exact Bool.false_ne_true)
    rw [overrideHeader, hnone]
  | value hname hvalue =>
    have hsome : Header.name? h.1 = some (lower h.1) := if_pos hname
    rw [overrideHeader, hsome, checkedValue_of_not_isValue hvalue]
    rfl

/-- A header can be sent, or there is a reason why it cannot. -/
theorem sendable_or_refused (h : String × String) : Sendable h ∨ ∃ e, Refused h e := by
  match hname : Header.isName h.1, hvalue : Header.isValue h.2 with
  | true, true => exact Or.inl ⟨hname, hvalue⟩
  | true, false => exact Or.inr ⟨_, .value hname hvalue⟩
  | false, _ => exact Or.inr ⟨_, .name hname⟩

/-! ## A run over some fields -/

/-- The headers that some fields put in one after the other make of others. -/
def putAll (d : Dict String) (hs : List (String × String)) : Dict String :=
  hs.foldl (fun d h => d.insert (lower h.1) h.2) d

/-- **A run succeeds exactly if every field can be sent**, and then all of them are put in. -/
theorem foldlM_eq_ok_iff : hs.foldlM overrideHeader d = .ok d' ↔
    (∀ h ∈ hs, Sendable h) ∧ d' = putAll d hs := by
  induction hs generalizing d with
  | nil =>
    rw [and_iff_right fun _ hmem => absurd hmem List.not_mem_nil, eq_comm (a := d')]
    exact (Except.ok.injEq _ _).to_iff
  | cons h hs ih =>
    rw [List.foldlM_cons, List.forall_mem_cons, and_assoc]
    obtain hsend | ⟨e, hr⟩ := sendable_or_refused h
    · rw [overrideHeader_of_sendable hsend, and_iff_right hsend]
      exact ih
    · rw [overrideHeader_of_refused hr]
      exact iff_of_false (fun h => nomatch h) fun h => hr.not_sendable h.1

/-- **A run fails with the error of the first field that cannot be sent.** -/
theorem foldlM_eq_error_iff : hs.foldlM overrideHeader d = .error e ↔ FirstRefused e hs := by
  induction hs generalizing d with
  | nil => exact iff_of_false (fun h => nomatch h) (fun h => nomatch h)
  | cons h hs ih =>
    rw [List.foldlM_cons]
    obtain hsend | ⟨e', hr⟩ := sendable_or_refused h
    · rw [overrideHeader_of_sendable hsend, firstRefused_cons_of_sendable hsend]
      exact ih
    · rw [overrideHeader_of_refused hr, firstRefused_cons_iff,
        or_iff_left fun h => hr.not_sendable h.1]
      refine (Except.error.injEq _ _).to_iff.trans ⟨fun heq => heq ▸ hr, fun hr' => ?_⟩
      exact Except.error.inj
        ((overrideHeader_of_refused hr d).symm.trans (overrideHeader_of_refused hr' d))

/-- The value of the last of some fields with a name. -/
def lastValue? (name : String) (hs : List (String × String)) : Option String :=
  (hs.filter fun h => lower h.1 = name).getLast?.map Prod.snd

/-- The first of some fields counts if none after it has its name. -/
theorem lastValue?_cons (h : String × String) (hs : List (String × String)) :
    lastValue? name (h :: hs) =
      (lastValue? name hs).or (if name = lower h.1 then some h.2 else none) := by
  unfold lastValue?
  by_cases hname : name = lower h.1
  · have hkeep : decide (lower h.1 = name) = true := decide_eq_true hname.symm
    rw [List.filter_cons, if_pos hkeep, List.getLast?_cons, if_pos hname, Option.map_some]
    cases (hs.filter fun h => lower h.1 = name).getLast? <;> rfl
  · have hdrop : ¬ decide (lower h.1 = name) = true := fun h => hname (of_decide_eq_true h).symm
    rw [List.filter_cons, if_neg hdrop, if_neg hname, Option.or_none]

/-- Fields that come later count before those that come earlier. -/
theorem lastValue?_append (hs hs' : List (String × String)) :
    lastValue? name (hs ++ hs') = (lastValue? name hs').or (lastValue? name hs) := by
  rw [lastValue?, List.filter_append, List.getLast?_append, Option.map_or]
  rfl

/-- **Under every name the last value stays.** -/
theorem get?_putAll (d : Dict String) (hs : List (String × String)) :
    (putAll d hs).get? name = (lastValue? name hs).or (d.get? name) := by
  induction hs generalizing d with
  | nil => rfl
  | cons h hs ih =>
    show (putAll (d.insert (lower h.1) h.2) hs).get? name = _
    rw [ih, Dict.get?_insert, lastValue?_cons, Option.or_assoc]
    by_cases hname : name = lower h.1
    · rw [if_pos hname, if_pos hname]
      rfl
    · rw [if_neg hname, if_neg hname]
      rfl

/-! ## The fields of a profile -/

/-- The user agent of a profile: its own, else one that is computed. -/
def agent (platform : String) (p : Profile) : String :=
  p.userAgent.getD (userAgent platform (some p.originator))

/-- The computed fields of a profile. -/
def computedFields (platform : String) (p : Profile) : List (String × String) :=
  [("originator", p.originator), ("user-agent", agent platform p)]
    ++ if p.requiresStreaming then [("accept", "text/event-stream")] else []

/-- The name under which the program calls itself is one. -/
theorem isName_originator : Header.isName "originator" = true := by
  decide

/-- So is that of the user agent. -/
theorem isName_userAgent : Header.isName "user-agent" = true := by
  decide

/-- The name of the originator is in lower case. -/
theorem lower_originator : lower "originator" = "originator" := by
  decide

/-- The name of the user agent is in lower case. -/
theorem lower_userAgent : lower "user-agent" = "user-agent" := by
  decide

/-- The name of the wish for an answer in pieces is in lower case. -/
theorem lower_accept : lower "accept" = "accept" := by
  decide

/-- The wish for an answer in pieces can be sent. -/
theorem sendable_accept : Sendable ("accept", "text/event-stream") :=
  ⟨by decide, by decide⟩

/-- The computed fields can be sent if the originator and the user agent are values. -/
theorem forall_sendable_computedFields_iff : (∀ h ∈ computedFields platform p, Sendable h) ↔
    Header.isValue p.originator = true ∧ Header.isValue (agent platform p) = true := by
  unfold computedFields
  have hrest : ∀ h ∈ if p.requiresStreaming then [("accept", "text/event-stream")] else [],
      Sendable h := by
    split
    · exact List.forall_mem_singleton.2 sendable_accept
    · exact fun _ hmem => absurd hmem List.not_mem_nil
  rw [List.forall_mem_append, and_iff_left hrest, List.forall_mem_cons, List.forall_mem_singleton]
  exact ⟨fun h => ⟨h.1.value, h.2.value⟩,
    fun h => ⟨⟨isName_originator, h.1⟩, ⟨isName_userAgent, h.2⟩⟩⟩

/-- The computed headers come of a run over the computed fields. -/
theorem computedHeaders_eq (platform : String) (p : Profile) :
    computedHeaders platform p = (computedFields platform p).foldlM overrideHeader .empty := by
  unfold computedHeaders
  match horiginator : Header.isValue p.originator, hagent : Header.isValue (agent platform p) with
  | false, _ =>
    rw [checkedValue_of_not_isValue horiginator]
    refine (foldlM_eq_error_iff.2 (.here ?_)).symm
    exact Refused.value isName_originator horiginator
  | true, false =>
    rw [checkedValue_of_isValue horiginator]
    show (checkedValue userAgentHeader (agent platform p) >>= _) = _
    rw [checkedValue_of_not_isValue hagent]
    refine (foldlM_eq_error_iff.2 (.later ⟨isName_originator, horiginator⟩ (.here ?_))).symm
    exact Refused.value isName_userAgent hagent
  | true, true =>
    rw [checkedValue_of_isValue horiginator]
    show (checkedValue userAgentHeader (agent platform p) >>= _) = _
    rw [checkedValue_of_isValue hagent]
    have hsend := forall_sendable_computedFields_iff.2 ⟨horiginator, hagent⟩
    refine (foldlM_eq_ok_iff.2 ⟨hsend, ?_⟩).symm
    unfold computedFields putAll Dict.ofList
    split
    · simp only [List.cons_append, List.nil_append, List.foldl_cons, List.foldl_nil,
        lower_originator, lower_userAgent, lower_accept]
      rfl
    · simp only [List.cons_append, List.nil_append, List.foldl_cons, List.foldl_nil,
        lower_originator, lower_userAgent]
      rfl

/-- **The headers of every request come of one run** over the computed fields and those of the
profile. -/
theorem staticHeaders_eq (platform : String) (p : Profile) : staticHeaders platform p =
    (computedFields platform p ++ p.headers.entries).foldlM overrideHeader .empty := by
  rw [List.foldlM_append, ← computedHeaders_eq]
  rfl

/-! ## Which value a name has -/

/-- Of some headers one is the last of a name in the order of octets. -/
structure LastOf (name : String) (h : String × String) (hs : List (String × String)) : Prop where
  /-- It is one of them. -/
  mem : h ∈ hs
  /-- It has the name, whatever the case of its letters. -/
  named : lower h.1 = name
  /-- None that has the name comes after it. -/
  last : ∀ x ∈ hs, lower x.1 = name → octets x.1 ≤ octets h.1

/-- A name has no value if no field has it. -/
theorem lastValue?_eq_none_iff : lastValue? name hs = none ↔ ∀ h ∈ hs, lower h.1 ≠ name := by
  simp [lastValue?]

/-- In a dictionary the last of a name is the one with the last key. -/
theorem exists_lastOf (ho : ∃ h ∈ d.entries, lower h.1 = name) :
    ∃ h, LastOf name h d.entries ∧ lastValue? name d.entries = some h.2 := by
  have hordered : (d.entries.filter fun h => lower h.1 = name).Pairwise fun a b => a.1 < b.1 :=
    d.ascending.filter _
  have hmem : ∀ h, h ∈ (d.entries.filter fun h => lower h.1 = name) ↔
      h ∈ d.entries ∧ lower h.1 = name := fun h => by
    rw [List.mem_filter, decide_eq_true_iff]
  unfold lastValue?
  generalize (d.entries.filter fun h => lower h.1 = name) = named at hordered hmem
  obtain rfl | ⟨front, h, rfl⟩ := List.eq_nil_or_concat named
  · obtain ⟨h, hh⟩ := ho
    exact absurd ((hmem h).2 hh) List.not_mem_nil
  · rw [List.concat_eq_append] at hordered hmem ⊢
    obtain ⟨hentry, hname⟩ := (hmem h).1 (List.mem_append_right _ List.mem_cons_self)
    refine ⟨h, ⟨hentry, hname, fun x hx hxname => octets_le_iff.2 ?_⟩, ?_⟩
    · obtain hfront | hlast := List.mem_append.1 ((hmem x).2 ⟨hx, hxname⟩)
      · have hlt := (List.pairwise_append.1 hordered).2.2 x hfront h List.mem_cons_self
        exact String.not_lt.1 fun hgt => String.lt_asymm hlt hgt
      · obtain rfl := List.mem_singleton.1 hlast
        exact String.le_refl _
    · exact congrArg (Option.map Prod.snd) List.getLast?_concat

/-- The value that is computed for a name. -/
def computedValue? (platform : String) (p : Profile) (name : String) : Option String :=
  if name = "originator" then some p.originator
  else if name = "user-agent" then some (agent platform p)
  else if name = "accept" ∧ p.requiresStreaming = true then some "text/event-stream"
  else none

/-- The last value that is computed for a name is the only one. -/
theorem lastValue?_computedFields (platform : String) (p : Profile) (name : String) :
    lastValue? name (computedFields platform p) = computedValue? platform p name := by
  have hnil : lastValue? name [] = none := rfl
  unfold computedFields computedValue?
  rw [lastValue?_append, lastValue?_cons, lastValue?_cons, hnil, lower_originator, lower_userAgent]
  by_cases horiginator : name = "originator"
  · subst horiginator
    split <;> simp [lastValue?_cons, hnil, lower_accept]
  by_cases hagent : name = "user-agent"
  · subst hagent
    split <;> simp [lastValue?_cons, hnil, lower_accept]
  rw [if_neg horiginator, if_neg hagent, if_neg hagent, if_neg horiginator]
  split <;> simp [lastValue?_cons, lower_accept, *]

/-- A letter in lower case stays as it is. -/
theorem toLower_toLower (c : Char) : c.toLower.toLower = c.toLower := by
  by_cases hupper : c.val ≥ 'A'.val ∧ c.val ≤ 'Z'.val
  · have hlower : c.toLower.val = c.val + 32 := congrArg Char.val (dif_pos hupper)
    have hpast : ¬ c.toLower.val ≤ 'Z'.val := by
      have hleast : 65 ≤ c.val.toNat := UInt32.le_iff_toNat_le.1 hupper.1
      have hgreatest : c.val.toNat ≤ 90 := UInt32.le_iff_toNat_le.1 hupper.2
      rw [hlower, UInt32.le_iff_toNat_le, UInt32.toNat_add]
      show ¬ (c.val.toNat + 32) % 4294967296 ≤ 90
      omega
    exact dif_neg fun h => hpast h.2
  · have hsame : c.toLower = c := dif_neg hupper
    rw [hsame, hsame]

/-- A name in lower case stays as it is. -/
theorem lower_lower (s : String) : lower (lower s) = lower s := by
  rw [lower, lower, String.toList_ofList, List.map_map]
  congr 1
  exact List.map_congr_left fun c _ => toLower_toLower c

/-- The names that something is computed for. -/
theorem computedValue?_ne_none_iff : computedValue? platform p name ≠ none ↔
    name = "originator" ∨ name = "user-agent" ∨
      name = "accept" ∧ p.requiresStreaming = true := by
  unfold computedValue?
  grind

/-- **A name has the last value that the profile has for it**, else the one that is computed. -/
theorem get?_staticHeaders (h : staticHeaders platform p = .ok d) (name : String) :
    d.get? name = (lastValue? name p.headers.entries).or (computedValue? platform p name) := by
  rw [staticHeaders_eq] at h
  obtain ⟨_, rfl⟩ := foldlM_eq_ok_iff.1 h
  rw [get?_putAll, lastValue?_append, lastValue?_computedFields, Dict.get?_empty, Option.or_none]

/-- **The names are those of the profile and those that something is computed for.** -/
theorem contains_staticHeaders_iff (h : staticHeaders platform p = .ok d) :
    d.contains name = true ↔
      (∃ h ∈ p.headers.entries, lower h.1 = name) ∨ computedValue? platform p name ≠ none := by
  have hkeys : lastValue? name p.headers.entries ≠ none ↔
      ∃ h ∈ p.headers.entries, lower h.1 = name := by
    rw [Ne, lastValue?_eq_none_iff]
    push Not
    exact Iff.rfl
  rw [← hkeys, Dict.contains, get?_staticHeaders h, ← not_and_or, ← Option.or_eq_none_iff,
    Option.isSome_iff_ne_none]

/-- Every name is in lower case. -/
theorem lower_of_contains (h : staticHeaders platform p = .ok d) (hname : d.contains name = true) :
    lower name = name := by
  obtain ⟨h, _, rfl⟩ | hcomputed := (contains_staticHeaders_iff h).1 hname
  · exact lower_lower h.1
  · obtain rfl | rfl | ⟨rfl, _⟩ := computedValue?_ne_none_iff.1 hcomputed
    · exact lower_originator
    · exact lower_userAgent
    · exact lower_accept

/-! ## Exactness -/

/-- What the headers of every request are for a profile. -/
structure Standing (platform : String) (p : Profile) (d : Dict String) : Prop where
  /-- No name occurs twice, whatever the case of its letters. -/
  once : (d.entries.map fun h => lower h.1).Nodup
  /-- The names are the computed ones and, in lower case, those of the profile. -/
  names : ∀ name, d.contains name = true ↔
    name = "originator" ∨ name = "user-agent" ∨ (name = "accept" ∧ p.requiresStreaming = true) ∨
      ∃ h ∈ p.headers.entries, lower h.1 = name
  /-- A name that the profile has, has the value of the last key. -/
  overridden : ∀ name, (∃ h ∈ p.headers.entries, lower h.1 = name) →
    ∃ h, LastOf name h p.headers.entries ∧ d.get? name = some h.2
  /-- Any other has the value that is computed. -/
  computed : ∀ name, (∀ h ∈ p.headers.entries, lower h.1 ≠ name) →
    d.get? name = computedValue? platform p name

/-- If there are headers, they are what they should be. -/
theorem standing_of_staticHeaders (h : staticHeaders platform p = .ok d) :
    Standing platform p d where
  once := by
    have hlower : ∀ x ∈ d.entries, lower x.1 = x.1 := fun x hx =>
      lower_of_contains h (by rw [Dict.contains, Dict.mem_entries_iff.1 hx]; rfl)
    rw [List.map_congr_left hlower]
    exact d.nodup_names
  names name := by
    rw [contains_staticHeaders_iff h, computedValue?_ne_none_iff, or_comm, or_assoc, or_assoc]
  overridden name ho := by
    obtain ⟨key, hlast, hvalue⟩ := exists_lastOf ho
    refine ⟨key, hlast, ?_⟩
    rw [get?_staticHeaders h, hvalue, Option.some_or]
  computed name hnone := by
    rw [get?_staticHeaders h, lastValue?_eq_none_iff.2 hnone, Option.none_or]

/-- The wish for an answer in pieces can always be sent, so it is never what is refused. -/
theorem firstRefused_fields_iff :
    FirstRefused e (computedFields platform p ++ p.headers.entries) ↔
      FirstRefused e (("originator", p.originator) :: ("user-agent", agent platform p) ::
        p.headers.entries) := by
  unfold computedFields
  split
  · show FirstRefused e (_ :: _ :: ("accept", "text/event-stream") :: p.headers.entries) ↔ _
    rw [firstRefused_cons_iff, firstRefused_cons_iff,
      firstRefused_cons_of_sendable sendable_accept, ← firstRefused_cons_iff,
      ← firstRefused_cons_iff]
  · exact Iff.rfl

/-- **What the headers of every request are**, for every profile. The headers of the profile stand
in the order of the octets of their keys. There are headers exactly if the originator, the user
agent and every key and value of the profile can be sent. Then every name is there once, with the
value of the last key of the profile that has it, or else with the computed one. If there are none,
the error tells the first that cannot be sent, in the order originator, user agent and keys, and of
a key and its value the key. -/
theorem staticHeaders_exact (platform : String) (p : Profile) :
    (p.headers.entries.Pairwise fun a b => octets a.1 < octets b.1) ∧
      ((∃ d, staticHeaders platform p = .ok d) ↔
        Header.isValue p.originator = true ∧ Header.isValue (agent platform p) = true ∧
          ∀ h ∈ p.headers.entries, Sendable h) ∧
      (∀ d, staticHeaders platform p = .ok d → Standing platform p d) ∧
      ∀ e, staticHeaders platform p = .error e ↔
        FirstRefused e (("originator", p.originator) :: ("user-agent", agent platform p) ::
          p.headers.entries) := by
  refine ⟨p.headers.ascending.imp fun hlt => octets_lt_iff.2 hlt, ?_,
    fun d => standing_of_staticHeaders, fun e => ?_⟩
  · rw [staticHeaders_eq, ← and_assoc, ← forall_sendable_computedFields_iff,
      ← List.forall_mem_append]
    exact ⟨fun ⟨_, hd⟩ => (foldlM_eq_ok_iff.1 hd).1, fun hs => ⟨_, foldlM_eq_ok_iff.2 ⟨hs, rfl⟩⟩⟩
  · rw [staticHeaders_eq, foldlM_eq_error_iff, firstRefused_fields_iff]

/-- Three keys with the names of other headers, two of them with the same. -/
example :
    let own : Dict String := .ofList [("x-team", "b"), ("X-Team", "a"), ("Originator", "c")]
    let p : Profile := { (default : Profile) with userAgent := some "d", headers := own }
    (staticHeaders "linux" p).toOption.map (·.entries) =
      some [("originator", "c"), ("user-agent", "d"), ("x-team", "b")] := by
  decide +kernel

end Client

end Courier
