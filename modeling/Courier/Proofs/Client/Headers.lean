import Courier.Client.Dispatch
import Courier.Profile.Builtin
import Courier.Proofs.Results

/-!
# Whose value a header of a request has

The headers of a request come together in two stages with different rules. When the client is made,
the headers of the profile take the place of computed ones of the same name. When something is
posted, the bearer, the type of the body, the account and the session are put behind those, whether
or not there is such a header already.

So the value of the profile always comes first (`Client.values_of_prevails`), but it is the only one
exactly if the name is left to the profile (`Client.LeftToProfile`). **`Client.sole_value_iff`**
says so of everything that a client may post, whatever the others answer; of the keys of a profile
that differ in case only it is the last that counts. A profile that asks for an `authorization` of
its own, as a gateway may want it, gets a request with two (`Client.not_always_sole`).

What a transport adds to a request on its own, apart from `accept`, is no part of this.
-/

namespace Courier

open Courier.Auth Courier.Http

/-! ## Fields by name -/

/-- The values of the fields of one name, in order. -/
def Http.Header.values (name : String) (fields : List (String × String)) : List String :=
  (fields.filter (·.1 == name)).map (·.2)

namespace Http.Header

variable {name : String}

/-- The values of a name come in the order of the fields. -/
theorem values_append (fields more : List (String × String)) :
    values name (fields ++ more) = values name fields ++ values name more := by
  rw [values, List.filter_append, List.map_append]
  rfl

/-- A name has no values if no field has it. -/
theorem values_eq_nil_iff {fields : List (String × String)} :
    values name fields = [] ↔ ∀ h ∈ fields, h.1 ≠ name := by
  simp [values]

/-- In a dictionary a name has one value at most. -/
theorem values_entries (d : Dict String) : values name d.entries = (d.get? name).toList := by
  obtain ⟨entries, ascending⟩ := d
  show values name entries = (entries.lookup name).toList
  induction entries with
  | nil => rfl
  | cons e rest ih =>
    obtain ⟨key, value⟩ := e
    obtain ⟨hhead, htail⟩ := List.pairwise_cons.1 ascending
    rw [Dict.lookup_cons_eq, ← List.singleton_append, values_append]
    by_cases h : name = key
    · -- the names behind are later ones
      have hrest : values name rest = [] := values_eq_nil_iff.2 fun x hx hname =>
        absurd (hhead x hx) (by rw [hname, h]; exact String.lt_irrefl key)
      rw [if_pos h, hrest]
      simp [values, h]
    · rw [if_neg h, ih htail]
      simp [values, Ne.symm h]

/-- Putting fields in the order of their names leaves those of one name in order. -/
theorem values_mergeSort (fields : List (String × String)) :
    values name (fields.mergeSort fun a b => a.1 ≤ b.1) = values name fields := by
  rw [values, values]
  congr 1
  have hsorted : (fields.filter (·.1 == name)).Pairwise fun a b => decide (a.1 ≤ b.1) = true := by
    refine List.pairwise_of_forall_mem_list fun a ha b hb => decide_eq_true ?_
    have heq : a.1 = b.1 :=
      (beq_iff_eq.1 (List.mem_filter.1 ha).2).trans (beq_iff_eq.1 (List.mem_filter.1 hb).2).symm
    exact heq ▸ String.le_refl a.1
  have hsub : (fields.filter (·.1 == name)).Sublist
      (fields.mergeSort fun a b => decide (a.1 ≤ b.1)) := by
    apply List.sublist_mergeSort
    · intro a b c hab hbc
      exact decide_eq_true (String.le_trans (of_decide_eq_true hab) (of_decide_eq_true hbc))
    · intro a b
      simpa using String.le_total a.1 b.1
    · exact hsorted
    · exact List.filter_sublist
  -- neither of the two has a field that the other one lacks
  have hlength := ((List.mergeSort_perm fields fun a b => decide (a.1 ≤ b.1)).filter
    (·.1 == name)).length_eq
  have hfilter := hsub.filter (·.1 == name)
  rw [List.filter_filter] at hfilter
  simp only [Bool.and_self] at hfilter
  exact (hfilter.eq_of_length hlength.symm).symm

end Http.Header

/-- The request that a draft makes has the values of the draft under every name that the draft
uses: only what it accepts may be added. -/
theorem Http.Draft.values_of_build {d : Draft} {r : Http.Request} {name : String}
    (h : d.build = .ok r) (hname : Header.values name d.headers ≠ []) :
    Header.values name r.headers = Header.values name d.headers := by
  have hheaders : r.headers = d.allHeaders.mergeSort fun a b => a.1 ≤ b.1 := by
    grind [Draft.build]
  rw [hheaders, Header.values_mergeSort, Draft.allHeaders]
  split
  · rfl
  · next hno =>
    have haccept : name ≠ "accept" := fun heq => hname <| Header.values_eq_nil_iff.2 fun x hx hx1 =>
      hno (List.any_eq_true.2 ⟨x, hx, by simp [hx1, heq]⟩)
    rw [Header.values_append]
    simp [Header.values, Ne.symm haccept]

/-! ## The headers of every request -/

/-- The header of a profile under `key` is the one that counts for a name: it has the name, whatever
the case of its letters, and of the headers that have it none has a later key. -/
structure Profile.Prevails (p : Profile) (key name value : String) : Prop where
  /-- The profile has the header. -/
  get?_eq : p.headers.get? key = some value
  /-- The header has the name. -/
  named : Header.name? key = some name
  /-- Other keys of the name come before. -/
  le : ∀ other, p.headers.contains other → Header.name? other = some name → other ≤ key

namespace Client

variable {platform : String} {p : Profile} {c : Client} {retries : Nat}
  {key name value : String} {session : Option String} {b : Bearer}

/-- A value that passes its check is as it was. -/
theorem eq_of_checkedValue {name value checked : String}
    (h : checkedValue name value = .ok checked) : checked = value := by
  grind [checkedValue]

/-- A header of a profile is put under its name. -/
theorem exists_of_overrideHeader {d d' : Dict String} {h : String × String}
    (hd : overrideHeader d h = .ok d') :
    ∃ name, Header.name? h.1 = some name ∧ d' = d.insert name h.2 := by
  rw [overrideHeader] at hd
  split at hd
  · cases hd
  · next name hname =>
    obtain ⟨value, hvalue, hd⟩ := bind_eq_ok_iff.mp hd
    cases hd
    exact ⟨name, hname, by rw [eq_of_checkedValue hvalue]⟩

/-- Headers of other names leave what is under a name. -/
theorem get?_of_overrides {hs : List (String × String)} {d d' : Dict String} {name : String}
    (hd : hs.foldlM overrideHeader d = .ok d') (hother : ∀ h ∈ hs, Header.name? h.1 ≠ some name) :
    d'.get? name = d.get? name := by
  induction hs generalizing d with
  | nil =>
    cases hd
    rfl
  | cons h rest ih =>
    obtain ⟨hnot, hrest⟩ := List.forall_mem_cons.1 hother
    rw [List.foldlM_cons] at hd
    obtain ⟨next, hnext, hd⟩ := bind_eq_ok_iff.mp hd
    obtain ⟨key, hkey, rfl⟩ := exists_of_overrideHeader hnext
    rw [ih hd hrest, Dict.get?_insert, if_neg]
    rintro rfl
    exact hnot hkey

/-- Every header of a profile that a client can be made of has a name. -/
theorem exists_name?_of_overrides {hs : List (String × String)} {d d' : Dict String}
    (hd : hs.foldlM overrideHeader d = .ok d') :
    ∀ h ∈ hs, ∃ name, Header.name? h.1 = some name := by
  induction hs generalizing d with
  | nil => simp
  | cons h rest ih =>
    rw [List.foldlM_cons] at hd
    obtain ⟨next, hnext, hd⟩ := bind_eq_ok_iff.mp hd
    obtain ⟨name, hname, -⟩ := exists_of_overrideHeader hnext
    exact List.forall_mem_cons.2 ⟨⟨name, hname⟩, ih hd⟩

/-- A client's headers are the computed ones, overridden by those of its profile. -/
theorem exists_of_make (hc : make platform p retries = .ok c) : c.profile = p ∧
    ∃ computed, p.headers.entries.foldlM overrideHeader computed = .ok c.headers := by
  obtain ⟨headers, hheaders, hc⟩ := bind_eq_ok_iff.mp hc
  cases hc
  obtain ⟨computed, -, hfold⟩ := bind_eq_ok_iff.mp hheaders
  exact ⟨rfl, computed, hfold⟩

/-- Of the keys with a property, if there are any, one is the last. -/
theorem exists_last (P : String → Prop) (keys : List String) :
    (∀ key ∈ keys, ¬ P key) ∨
      ∃ last ∈ keys, P last ∧ ∀ key ∈ keys, P key → key ≤ last := by
  induction keys with
  | nil => exact .inl (by simp)
  | cons first keys ih =>
    by_cases hfirst : P first
    · rcases ih with hnone | ⟨last, hmem, hlast, hle⟩
      · refine .inr ⟨first, List.mem_cons_self, hfirst, List.forall_mem_cons.2
          ⟨fun _ => String.le_refl first, fun key hkey h => absurd h (hnone key hkey)⟩⟩
      · rcases String.le_total first last with hbefore | hafter
        · exact .inr ⟨last, List.mem_cons_of_mem _ hmem, hlast,
            List.forall_mem_cons.2 ⟨fun _ => hbefore, hle⟩⟩
        · exact .inr ⟨first, List.mem_cons_self, hfirst, List.forall_mem_cons.2
            ⟨fun _ => String.le_refl first,
              fun key hkey h => String.le_trans (hle key hkey h) hafter⟩⟩
    · rcases ih with hnone | ⟨last, hmem, hlast, hle⟩
      · exact .inl (List.forall_mem_cons.2 ⟨hfirst, hnone⟩)
      · exact .inr ⟨last, List.mem_cons_of_mem _ hmem, hlast,
          List.forall_mem_cons.2 ⟨fun h => absurd h hfirst, hle⟩⟩

/-- A dictionary contains the keys of its entries. -/
theorem mem_keys_iff {d : Dict String} : key ∈ d.entries.map Prod.fst ↔ d.contains key := by
  simp [Dict.contains, Dict.get?, List.lookup_isSome_iff, eq_comm (a := key)]

/-- For every header of a profile there is one that counts for its name. -/
theorem exists_prevails (hc : make platform p retries = .ok c) (hk : p.headers.contains key) :
    ∃ name last value, Header.name? key = some name ∧ p.Prevails last name value := by
  obtain ⟨-, computed, hfold⟩ := exists_of_make hc
  obtain ⟨h, hmem, rfl⟩ := List.mem_map.1 (mem_keys_iff.2 hk)
  obtain ⟨name, hname⟩ := exists_name?_of_overrides hfold h hmem
  obtain hnone | ⟨last, hlast, hnamed, hle⟩ := exists_last
    (fun key => Header.name? key = some name) (p.headers.entries.map Prod.fst)
  · exact absurd hname (hnone h.1 (mem_keys_iff.2 hk))
  · obtain ⟨value, hvalue⟩ := Option.isSome_iff_exists.1 (mem_keys_iff.1 hlast)
    exact ⟨name, last, value, hname, hvalue, hnamed,
      fun other hother => hle other (mem_keys_iff.2 hother)⟩

/-- **What prevails in a profile is a header of every request.** -/
theorem get?_of_prevails (hc : make platform p retries = .ok c) (h : p.Prevails key name value) :
    c.headers.get? name = some value := by
  obtain ⟨-, computed, hfold⟩ := exists_of_make hc
  obtain ⟨before, after, hentries, -⟩ := List.lookup_eq_some_iff.1 h.get?_eq
  have hlater : ∀ e ∈ after, Header.name? e.1 ≠ some name := fun e hmem hname => by
    have hascending := p.headers.ascending
    rw [hentries] at hascending
    have hlt : key < e.1 :=
      (List.pairwise_cons.1 (List.pairwise_append.1 hascending).2.1).1 e hmem
    have hcontains : p.headers.contains e.1 := List.lookup_isSome_iff.2
      ⟨e, hentries ▸ List.mem_append_right _ (List.mem_cons_of_mem _ hmem), beq_self_eq_true e.1⟩
    exact absurd hlt (String.not_lt.2 (h.le e.1 hcontains hname))
  rw [hentries, List.foldlM_append] at hfold
  obtain ⟨middle, -, hfold⟩ := bind_eq_ok_iff.mp hfold
  rw [List.foldlM_cons] at hfold
  obtain ⟨next, hnext, hfold⟩ := bind_eq_ok_iff.mp hfold
  obtain ⟨name', hname', rfl⟩ := exists_of_overrideHeader hnext
  rw [get?_of_overrides hfold hlater, Dict.get?_insert, if_pos]
  exact Option.some.inj (h.named.symm.trans hname')

/-! ## The fields behind them -/

/-- The fields that are put behind the headers of every request. -/
def behind (b : Bearer) (session : Option String) : List (String × String) :=
  bearerHeaders b ++ (session.map fun id => ("session_id", id)).toList

/-- A name is left to the profile: no field of that name is put behind the headers of every
request. -/
structure LeftToProfile (b : Bearer) (session : Option String) (name : String) : Prop where
  /-- The bearer has a field of its own. -/
  not_authorization : name ≠ "authorization"
  /-- So has the type of the body. -/
  not_contentType : name ≠ "content-type"
  /-- The account has one if there is an account. -/
  no_account : name = "chatgpt-account-id" → b.accountId = none
  /-- The session has one if there is a session. -/
  no_session : name = "session_id" → session = none

/-- Nothing comes behind the headers of the profile under the names that are left to it. -/
theorem values_behind_eq_nil_iff :
    Header.values name (behind b session) = [] ↔ LeftToProfile b session name := by
  have hoption (key : String) (o : Option String) :
      (∀ h ∈ (o.map fun id => (key, id)).toList, h.1 ≠ name) ↔ (name = key → o = none) := by
    cases o <;> simp [eq_comm (a := name)]
  rw [Header.values_eq_nil_iff, behind, bearerHeaders, List.forall_mem_append,
    List.forall_mem_append, hoption, hoption]
  constructor
  · rintro ⟨⟨hfirst, haccount⟩, hsession⟩
    exact {
      not_authorization := (hfirst ("authorization", "Bearer " ++ b.token) (by simp)).symm
      not_contentType := (hfirst ("content-type", "application/json") (by simp)).symm
      no_account := haccount
      no_session := hsession }
  · intro h
    refine ⟨⟨?_, h.no_account⟩, h.no_session⟩
    simp [Ne.symm h.not_authorization, Ne.symm h.not_contentType]

/-- The value of the profile comes first in what a draft makes, and behind it the values of the
fields that are put there. -/
theorem values_of_prevails (hc : make platform p retries = .ok c) (h : p.Prevails key name value)
    {body : String} {r : Http.Request} (hr : (c.draft body session b).build = .ok r) :
    Header.values name r.headers = value :: Header.values name (behind b session) := by
  have hdraft : Header.values name (c.draft body session b).headers
      = value :: Header.values name (behind b session) := by
    rw [draft, List.append_assoc, Header.values_append, Header.values_entries,
      get?_of_prevails hc h]
    rfl
  rw [Draft.values_of_build hr (by rw [hdraft]; exact List.cons_ne_nil _ _), hdraft]

/-! ## Everything that is posted -/

/-- A draft may be posted in the course of a dispatch, depending on what the others answer. -/
inductive Dispatch.Posts (d : Draft) : Dispatch → Prop where
  /-- It is posted next. -/
  | here {next : Reply → Dispatch} : Posts d (.post d next)
  /-- It may be posted after a bearer was asked for. -/
  | afterBearer {next : Except Auth.Failure Bearer → Dispatch} (r : Except Auth.Failure Bearer) :
      Posts d (next r) → Posts d (.bearer next)
  /-- It may be posted after another bearer was asked for. -/
  | afterOther {stale : Bearer} {next : Except Auth.Failure Bearer → Dispatch}
      (r : Except Auth.Failure Bearer) : Posts d (next r) → Posts d (.otherBearer stale next)
  /-- It may be posted after something else was. -/
  | afterPost {other : Draft} {next : Reply → Dispatch} (r : Reply) :
      Posts d (next r) → Posts d (.post other next)
  /-- It may be posted after a wait. -/
  | afterWait {w : Wait} {next : Dispatch} : Posts d next → Posts d (.wait w next)

/-- What goes on with a result posts nothing new before it has one. -/
theorem Dispatch.Posts.of_andThen {k : Except Error Payload → Dispatch} {x : Dispatch} {d : Draft}
    (h : (x.andThen k).Posts d) : x.Posts d ∨ ∃ r, (k r).Posts d := by
  induction x with
  | done r => exact .inr ⟨r, h⟩
  | bearer next ih =>
    cases h with | afterBearer r h => exact (ih r h).imp_left (.afterBearer r)
  | otherBearer stale next ih =>
    cases h with | afterOther r h => exact (ih r h).imp_left (.afterOther r)
  | post other next ih =>
    cases h with
    | here => exact .inl .here
    | afterPost r h => exact (ih r h).imp_left (.afterPost r)
  | wait w next ih =>
    cases h with | afterWait h => exact (ih h).imp_left .afterWait

/-- Nothing is posted where there is no bearer. -/
theorem Dispatch.Posts.of_withBearer {k : Bearer → Dispatch} {d : Draft}
    {r : Except Auth.Failure Bearer} (h : (withBearer k r).Posts d) : ∃ b, (k b).Posts d := by
  cases r with
  | ok b => exact ⟨b, h⟩
  | error f => cases h

/-- Nothing is posted after a reply that does not refuse the bearer. -/
theorem Dispatch.Posts.of_unlessRefused {k : Dispatch} {d : Draft} {r : Reply}
    (h : (unlessRefused k r).Posts d) : k.Posts d := by
  rw [unlessRefused] at h
  split at h
  · cases h
  · exact h

/-- A body is posted in drafts for some bearer. -/
theorem Dispatch.Posts.of_sendBody {body : String} {d : Draft}
    (h : (c.sendBody body session).Posts d) : ∃ b, d = c.draft body session b := by
  cases h with | afterBearer r h =>
  obtain ⟨b, h⟩ := h.of_withBearer
  cases h with
  | here => exact ⟨b, rfl⟩
  | afterPost r h =>
    have h := h.of_unlessRefused
    cases h with | afterOther r h =>
    obtain ⟨fresh, h⟩ := h.of_withBearer
    cases h with
    | here => exact ⟨fresh, rfl⟩
    | afterPost r h => cases h.of_unlessRefused

/-- The ways in which a client sends something within a session, if there is one. -/
inductive Sends (c : Client) : Option String → Dispatch → Prop where
  /-- A request is sent. -/
  | once (request : Wire.Request) (session : Option String) :
      Sends c session (c.send request session)
  /-- A request is sent, and sent again after failures that may go away. -/
  | again (request : Wire.Request) (session : Option String) :
      Sends c session (c.sendWithRetry request session)
  /-- The request of a conversation is sent. -/
  | conversation (s : Dialogue.Snapshot) (o : Wire.CallOptions) :
      Sends c (some s.conversationId) (c.sendConversation s o)

/-- What is posted in some try is posted in a single call. -/
theorem Dispatch.Posts.of_retrying {once : Dispatch} {d : Draft} {retries attempt : Nat}
    (h : (retrying once retries attempt).Posts d) : once.Posts d := by
  induction retries generalizing attempt with
  | zero => exact h
  | succ retries ih =>
    rcases h.of_andThen with h | ⟨r, h⟩
    · exact h
    · cases r with
      | ok payload => cases h
      | error e =>
        dsimp only at h
        split at h
        · cases h with | afterWait h => exact ih h
        · cases h

/-- **Whatever a client sends, it posts drafts of its own for some bearer.** -/
theorem Sends.exists_draft {x : Dispatch} {d : Draft} (hs : c.Sends session x) (hd : x.Posts d) :
    ∃ body b, d = c.draft body session b := by
  cases hs with
  | once request => exact ⟨_, hd.of_sendBody⟩
  | again request => exact ⟨_, hd.of_retrying.of_sendBody⟩
  | conversation s o =>
    rw [sendConversation] at hd
    split at hd
    · exact ⟨_, hd.of_sendBody⟩
    · cases hd

/-- **The value of the profile is the only one exactly if the name is left to the profile.** For
every header of the profile and everything that the client may post on behalf of somebody, the
request has the value that prevails in the profile before all others of the name. -/
theorem sole_value_iff (hc : make platform p retries = .ok c) {x : Dispatch} {d : Draft}
    {r : Http.Request} (hs : c.Sends session x) (hd : x.Posts d) (hr : d.build = .ok r)
    (hk : p.headers.contains key) :
    ∃ body b name last value, d = c.draft body session b ∧
      Header.name? key = some name ∧ p.Prevails last name value ∧
      Header.values name r.headers = value :: Header.values name (behind b session) ∧
      (Header.values name r.headers = [value] ↔ LeftToProfile b session name) := by
  obtain ⟨body, b, rfl⟩ := hs.exists_draft hd
  obtain ⟨name, last, value, hname, h⟩ := exists_prevails hc hk
  have hvalues := values_of_prevails hc h hr
  refine ⟨body, b, name, last, value, rfl, hname, h, hvalues, ?_⟩
  rw [hvalues, List.cons_eq_cons, and_iff_right rfl, values_behind_eq_nil_iff]

/-! ## A gateway with an authorization of its own -/

/-- The profile of a gateway that has an authorization of its own and a header in two spellings. -/
def gateway : Profile :=
  { Profile.openai with
    endpointUrl := "http://api.test/v1/responses"
    headers := .ofList [("Authorization", "Bearer gateway"), ("X-Team", "a"), ("x-team", "b")] }

/-- The client of the gateway. -/
def gatewayClient : Client where
  profile := gateway
  headers := .ofList [("authorization", "Bearer gateway"), ("originator", "responses_sdk_rs"),
    ("user-agent", "responses_sdk_rs/0.0.0 (linux)"), ("x-team", "b")]
  maxRetries := 4

/-- The client of that profile can be made. -/
theorem make_gateway : make "linux" gateway 4 = .ok gatewayClient := rfl

/-- A request to the gateway. -/
def gatewayRequest : Wire.Request where
  model := gateway.model
  instructions := ""
  input := [.message true .user [.input "hello"]]
  options := gateway.permit {}

/-- What the client of the gateway posts with an API key, outside of a session. -/
def gatewayDraft : Draft :=
  gatewayClient.draft gatewayRequest.encode.render none (.ofApiKey "sk-1")

/-- It posts that draft. -/
theorem posts_gatewayDraft : (gatewayClient.send gatewayRequest none).Posts gatewayDraft :=
  .afterBearer (.ok _) .here

/-- That draft can be sent. -/
theorem exists_build_gatewayDraft : ∃ r, gatewayDraft.build = .ok r := by
  have hok : gatewayDraft.build.toOption.isSome := by decide +kernel
  cases hr : gatewayDraft.build with
  | ok r => exact ⟨r, rfl⟩
  | error f =>
    rw [hr] at hok
    cases hok

/-- Of the two spellings the later one counts, and its value is the only one. -/
theorem sole_value_iff_team : make "linux" gateway 4 = .ok gatewayClient ∧
    gateway.headers.contains "X-Team" ∧ gateway.headers.contains "x-team" ∧
    ∃ r, gatewayDraft.build = .ok r ∧ Header.values "x-team" r.headers = ["b"] := by
  obtain ⟨r, hr⟩ := exists_build_gatewayDraft
  have hteam : gateway.headers.contains "X-Team" := by decide +kernel
  obtain ⟨body, b, name, last, value, -, hname, hprevails, -, hsole⟩ :=
    sole_value_iff make_gateway (.once gatewayRequest none) posts_gatewayDraft hr hteam
  obtain rfl : "x-team" = name := Option.some.inj <|
    (show Header.name? "X-Team" = some "x-team" by decide +kernel).symm.trans hname
  have hvalue : some "b" = some value :=
    (show gatewayClient.headers.get? "x-team" = some "b" by decide +kernel).symm.trans
      (get?_of_prevails make_gateway hprevails)
  cases hvalue
  exact ⟨make_gateway, hteam, by decide +kernel, r, hr,
    hsole.2 ⟨by decide, by decide, fun h => absurd h (by decide), by decide⟩⟩

/-- **The value of a profile is not always the only one**: the request to the gateway has the
authorization of the gateway and the bearer's. -/
theorem not_always_sole : ¬ ∀ (platform : String) (p : Profile) (retries : Nat) (c : Client)
    (session : Option String) (x : Dispatch) (d : Draft) (r : Http.Request) (key : String),
    make platform p retries = .ok c → c.Sends session x → x.Posts d → d.build = .ok r →
    p.headers.contains key → ∃ name last value, Header.name? key = some name ∧
      p.Prevails last name value ∧ Header.values name r.headers = [value] := by
  intro h
  obtain ⟨r, hr⟩ := exists_build_gatewayDraft
  obtain ⟨name, last, value, hname, -, hsole⟩ := h "linux" gateway 4 gatewayClient none _
    gatewayDraft r "Authorization" make_gateway (.once gatewayRequest none) posts_gatewayDraft hr
    (by decide +kernel)
  obtain rfl : "authorization" = name := Option.some.inj <|
    (show Header.name? "Authorization" = some "authorization" by decide +kernel).symm.trans hname
  have hboth : Header.values "authorization" gatewayDraft.headers
      = ["Bearer gateway", "Bearer sk-1"] := by decide +kernel
  rw [Draft.values_of_build hr (by rw [hboth]; exact List.cons_ne_nil _ _), hboth] at hsole
  cases hsole

end Client

end Courier
