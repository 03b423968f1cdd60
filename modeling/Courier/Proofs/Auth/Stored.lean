import Courier.Auth.File
import Courier.Proofs.Json.Laying
import Courier.Proofs.Json.Records
import Courier.Proofs.Store.Places
import Courier.Proofs.Time.Stamps

/-!
# What is stored is read back

A file that holds what `Stored.text` writes is read as what was written, to the last field:
**`readStored_file_text`**. Texts come back with all their characters, times with their nanoseconds,
and what is absent stays absent.

The three records have a lemma each (`Identity.decode_encode`, `Credential.decode_encode`,
`Stored.decode_encode`); what is left is that the text is laid out as the value that it was made of.

**`stored_read_back`** is about the file in its place: whether there was another file before, or
nothing, or not even a directory, what is written to a path is what is read from it then.
-/

namespace Courier.Auth

open Courier.Json Courier.Store Courier.Text Courier.Time

/-! ## Parts of a record -/

/-- A text that may be absent is read back. -/
theorem option_orNull_string (s : Option String) :
    Decoder.option Decoder.string (Value.orNull .string s).reading = .ok s := by
  cases s <;> rfl

/-- A time is read back. -/
theorem decodeInstant_text (t : Instant) :
    decodeInstant (Value.string t.text).reading = .ok t := by
  simp only [Value.reading, decodeInstant, Decoder.string, bind, Except.bind, Instant.ofText?_text]
  rfl

/-- A text that may be absent is no number. -/
theorem numberless_orNull_string (s : Option String) : (Value.orNull .string s).Numberless := by
  cases s with
  | none => exact .null
  | some s => exact .string s

/-! ## Identities -/

/-- The members that are written for an identity. -/
def Identity.members (i : Identity) : List (String × Value) :=
  [("email", .orNull .string i.email),
    ("chatgpt_plan_type", .orNull .string i.plan),
    ("chatgpt_account_id", .orNull .string i.accountId)]

/-- There is no number in an identity. -/
theorem Identity.numberless_encode (i : Identity) : i.encode.Numberless := by
  apply Value.Numberless.object
  simp [numberless_orNull_string]

/-- What is known of an account is read back. -/
theorem Identity.decode_encode (i : Identity) : Identity.decode i.encode.reading = .ok i := by
  have hemail : emailField.read (Value.orNull .string i.email).reading = .ok i.email :=
    option_orNull_string _
  have hplan : planField.read (Value.orNull .string i.plan).reading = .ok i.plan :=
    option_orNull_string _
  have haccount : accountIdField.read (Value.orNull .string i.accountId).reading =
      .ok i.accountId := option_orNull_string _
  have hwanted : Wanted [emailField.probe, planField.probe, accountIdField.probe] i.members := by
    refine .cons (.cons (.cons (.nil _) haccount rfl ?_) hplan rfl ?_) hemail rfl ?_ <;>
      simp [emailField, planField, accountIdField, RecordField.optional]
  have hcells : cells .json [emailField.probe, planField.probe, accountIdField.probe]
      i.encode.reading = .ok (.ofMembers i.members) := cells_object hwanted
  have hemail' : Holds i.members emailField i.email := .given rfl hemail
  have hplan' : Holds i.members planField i.plan := .given rfl hplan
  have haccount' : Holds i.members accountIdField i.accountId := .given rfl haccount
  simp only [decode, hcells, hemail'.get, hplan'.get, haccount'.get, bind, Except.bind]
  rfl

/-! ## Credentials -/

/-- The members that are written for a credential. -/
def Credential.members (c : Credential) : List (String × Value) :=
  [("access_token", .string c.accessToken),
    ("refresh_token", .string c.refreshToken),
    ("expires_at", .string c.expiresAt.text),
    ("client_id", .string c.clientId),
    ("issuer", .string c.issuer),
    ("id_token", c.identity.encode)]

/-- There is no number in a credential, for its expiry is a text. -/
theorem Credential.numberless_encode (c : Credential) : c.encode.Numberless := by
  apply Value.Numberless.object
  simp [Value.Numberless.string, Identity.numberless_encode]

/-- A credential is read back. -/
theorem Credential.decode_encode (c : Credential) : Credential.decode c.encode.reading = .ok c := by
  have haccess : accessTokenField.read (Value.string c.accessToken).reading = .ok c.accessToken :=
    rfl
  have hrefresh : refreshTokenField.read (Value.string c.refreshToken).reading =
      .ok c.refreshToken := rfl
  have hexpires : expiresAtField.read (Value.string c.expiresAt.text).reading = .ok c.expiresAt :=
    decodeInstant_text _
  have hclient : clientIdField.read (Value.string c.clientId).reading = .ok c.clientId := rfl
  have hissuer : issuerField.read (Value.string c.issuer).reading = .ok c.issuer := rfl
  have hidentity : identityField.read c.identity.encode.reading = .ok c.identity :=
    Identity.decode_encode _
  have hwanted : Wanted [accessTokenField.probe, refreshTokenField.probe, expiresAtField.probe,
      clientIdField.probe, issuerField.probe, identityField.probe] c.members := by
    refine .cons (.cons (.cons (.cons (.cons (.cons (.nil _) hidentity rfl ?_) hissuer rfl ?_)
      hclient rfl ?_) hexpires rfl ?_) hrefresh rfl ?_) haccess rfl ?_ <;>
      simp [accessTokenField, refreshTokenField, expiresAtField, clientIdField, issuerField,
        identityField, RecordField.required, RecordField.defaulted]
  have hcells : cells .json [accessTokenField.probe, refreshTokenField.probe, expiresAtField.probe,
      clientIdField.probe, issuerField.probe, identityField.probe] c.encode.reading =
        .ok (.ofMembers c.members) := cells_object hwanted
  have haccess' : Holds c.members accessTokenField c.accessToken := .given rfl haccess
  have hrefresh' : Holds c.members refreshTokenField c.refreshToken := .given rfl hrefresh
  have hexpires' : Holds c.members expiresAtField c.expiresAt := .given rfl hexpires
  have hclient' : Holds c.members clientIdField c.clientId := .given rfl hclient
  have hissuer' : Holds c.members issuerField c.issuer := .given rfl hissuer
  have hidentity' : Holds c.members identityField c.identity := .given rfl hidentity
  simp only [decode, hcells, haccess'.get, hrefresh'.get, hexpires'.get, hclient'.get, hissuer'.get,
    hidentity'.get, bind, Except.bind]
  rfl

/-! ## The file -/

namespace Stored

/-- The members that are written for the file. -/
def members (s : Stored) : List (String × Value) :=
  member "OPENAI_API_KEY" (.orNull .string s.apiKey)
    ++ member? "tokens" Credential.encode s.tokens
    ++ member? "last_refresh" (fun t => .string t.text) s.lastRefresh

/-- There is no number in what is stored. -/
theorem numberless_encode (s : Stored) : s.encode.Numberless := by
  obtain ⟨key, tokens, refreshed⟩ := s
  apply Value.Numberless.object
  cases tokens <;> cases refreshed <;>
    simp [member, member?, numberless_orNull_string, Credential.numberless_encode,
      Value.Numberless.string]

/-- A stored credential is read back. -/
theorem read_tokensField (c : Credential) : tokensField.read c.encode.reading = .ok (some c) := by
  have hread : tokensField.read = Decoder.option Credential.decode := rfl
  rw [hread]
  apply Decoder.option_eq_ok
  · nofun
  · exact Credential.decode_encode c

/-- A stored time is read back. -/
theorem read_lastRefreshField (t : Instant) :
    lastRefreshField.read (Value.string t.text).reading = .ok (some t) := by
  have hread : lastRefreshField.read = Decoder.option decodeInstant := rfl
  rw [hread]
  apply Decoder.option_eq_ok
  · nofun
  · exact decodeInstant_text t

/-- The members that are written are those that are read. -/
theorem wanted_members (s : Stored) :
    Wanted [apiKeyField.probe, tokensField.probe, lastRefreshField.probe] s.members := by
  obtain ⟨key, tokens, refreshed⟩ := s
  have hkey : apiKeyField.read (Value.orNull .string key).reading = .ok key :=
    option_orNull_string _
  have hnames : apiKeyField.name ≠ tokensField.name ∧ apiKeyField.name ≠ lastRefreshField.name ∧
      tokensField.name ≠ lastRefreshField.name := by decide
  cases tokens with
  | none =>
    cases refreshed with
    | none => exact .cons (.nil _) hkey rfl (by simp)
    | some t =>
      refine .cons (.cons (.nil _) (read_lastRefreshField t) rfl ?_) hkey rfl ?_
      · simp
      · simpa using hnames.2.1
  | some c =>
    cases refreshed with
    | none =>
      refine .cons (.cons (.nil _) (read_tokensField c) rfl ?_) hkey rfl ?_
      · simp
      · simpa using hnames.1
    | some t =>
      refine .cons (.cons (.cons (.nil _) (read_lastRefreshField t) rfl ?_)
        (read_tokensField c) rfl ?_) hkey rfl ?_
      · simp
      · simpa using hnames.2.2
      · simpa using ⟨hnames.1, hnames.2.1⟩

/-- What the file keeps is read back. -/
theorem decode_encode (s : Stored) : Stored.decode s.encode.reading = .ok s := by
  have hcells : cells .json [apiKeyField.probe, tokensField.probe, lastRefreshField.probe]
      s.encode.reading = .ok (.ofMembers s.members) := cells_object s.wanted_members
  obtain ⟨key, tokens, refreshed⟩ := s
  have hkey : Holds (members ⟨key, tokens, refreshed⟩) apiKeyField key :=
    .given rfl (option_orNull_string _)
  have htokens : Holds (members ⟨key, tokens, refreshed⟩) tokensField tokens := by
    cases tokens with
    | none => cases refreshed <;> exact .absent rfl rfl
    | some c => exact .given rfl (read_tokensField c)
  have hrefreshed : Holds (members ⟨key, tokens, refreshed⟩) lastRefreshField refreshed := by
    cases refreshed with
    | none => cases tokens <;> exact .absent rfl rfl
    | some t => cases tokens <;> exact .given rfl (read_lastRefreshField t)
  simp only [decode, hcells, hkey.get, htokens.get, hrefreshed.get, bind, Except.bind]
  rfl

/-- The text of the file is read back. -/
theorem decodeText_text (s : Stored) : decodeText Stored.decode s.text = .ok s := by
  rw [decodeText, decodeOctets, text, s.encode.layOut_renderPretty, s.numberless_encode.laid_eq]
  simp only [decode_encode]
  rfl

end Stored

/-- **A file that holds what was written is read as what was written.** -/
theorem readStored_file_text (s : Stored) : readStored (.file (octets s.text)) = .ok s := by
  simp only [readStored, Node.readText, ofOctets?_octets, bind, Except.bind, s.decodeText_text]
  rfl

/-- What has been written is read back, if it could be written. -/
theorem readStored_of_writeStored {s : Stored} {n written : Node}
    (h : writeStored s n = .ok written) : readStored written = .ok s := by
  have hwritten : written = .file (octets s.text) := by
    cases n with
    | directory => cases h
    | absent => exact (Except.ok.inj h).symm
    | file content => exact (Except.ok.inj h).symm
  rw [hwritten]
  exact readStored_file_text s

/-! ## The file in its place -/

/-- A file with anything in it is overwritten, and where there is nothing a file is made. -/
theorem writeStored_eq_ok (s : Stored) {n : Node}
    (h : (∃ content, n = .file content) ∨ n = .absent) :
    writeStored s n = .ok (.file (octets s.text)) := by
  rcases h with ⟨content, rfl⟩ | rfl <;> rfl

/-- **What is written to a path is read from it**, if the path led to a file or to nothing: the file
can be written, and nothing of what was there before shows. -/
theorem stored_read_back (s : Stored) (p : FilePath) (t : Tree)
    (h : (∃ content, t.nodeAt p.names = .ok (.file content)) ∨ t.nodeAt p.names = .ok .absent) :
    ∃ t', writeStoredAt s p.directories p.name t = .ok t' ∧ readStoredAt p.names t' = .ok s := by
  have hfollow : (∃ content, t.follow p.names = .ok (.file content)) ∨
      t.follow p.names = .error .notFound := by
    rcases h with ⟨content, h⟩ | h
    · exact .inl ⟨content, (Tree.nodeAt_eq_file_iff p.plain_names).mp h⟩
    · exact .inr ((Tree.nodeAt_eq_absent_iff p.plain_names).mp h)
  have hshort : ∀ d ∈ p.directories, (octets d).length ≤ longestPart := fun d hd =>
    (p.plain d (List.mem_append_left _ hd)).short
  obtain ⟨made, entries, hmade, hleads, hsame⟩ := Tree.exists_makeDirectories hshort hfollow
  have hnode : made.nodeAt p.names = t.nodeAt p.names := by
    rw [Tree.nodeAt_eq p.plain_names, Tree.nodeAt_eq p.plain_names, FilePath.names, hsame]
  obtain ⟨n, hn, hkind⟩ : ∃ n, made.nodeAt p.names = .ok n ∧
      ((∃ content, n = .file content) ∨ n = .absent) := by
    rw [hnode]
    rcases h with ⟨content, h⟩ | h
    · exact ⟨_, h, .inl ⟨content, rfl⟩⟩
    · exact ⟨_, h, .inr rfl⟩
  refine ⟨made.withNode p.names (.file (octets s.text)), ?_, ?_⟩
  · rw [FilePath.names] at hn
    simp only [writeStoredAt, hmade, hn, writeStored_eq_ok s hkind, bind, Except.bind]
    rfl
  · have hfound : (made.withNode p.names (.file (octets s.text))).nodeAt p.names =
        .ok (.file (octets s.text)) :=
      (Tree.nodeAt_eq_file_iff p.plain_names).mpr (Tree.follow_graft hleads)
    simp only [readStoredAt, hfound, bind, Except.bind]
    exact readStored_file_text s

/-- A credential with a leap second, a year before the first one and signs that are escaped. -/
def Stored.sample : Stored where
  apiKey := some "a \"key\"\u0001\n\\"
  tokens := some
    { accessToken := "at"
      refreshToken := ""
      expiresAt := (Instant.of? (-70000000000) 123456789).getD .epoch
      clientId := "client"
      issuer := "https://auth.example"
      identity := { email := some "ü@example.com" } }
  lastRefresh := Instant.of? 1483228799 1500000000

/-- The way to the file, with a directory on it. -/
def nestedPath : FilePath where
  directories := ["nested"]
  name := "auth.json"
  plain := by
    simp only [List.cons_append, List.nil_append, List.forall_mem_cons, List.not_mem_nil,
      false_implies, implies_true, and_true]
    exact ⟨⟨by decide, by decide, by decide, by decide⟩,
      ⟨by decide, by decide, by decide, by decide⟩⟩

/-- It is read back where even the directory was missing, and where a longer file stood. -/
theorem sample_read_back :
    (∃ t', writeStoredAt .sample nestedPath.directories nestedPath.name .empty = .ok t' ∧
      readStoredAt nestedPath.names t' = .ok .sample) ∧
    ∃ t', writeStoredAt .sample nestedPath.directories nestedPath.name
        (Tree.empty.withNode nestedPath.names (.file (List.replicate 5000 0x20))) = .ok t' ∧
      readStoredAt nestedPath.names t' = .ok .sample :=
  ⟨stored_read_back .sample nestedPath .empty (.inr rfl),
    stored_read_back .sample nestedPath _
      (.inl ⟨List.replicate 5000 0x20, (Tree.nodeAt_eq_file_iff nestedPath.plain_names).mpr rfl⟩)⟩

end Courier.Auth
