import Courier.Auth.Claims
import Courier.Proofs.Json.Records
import Courier.Proofs.Text.Base64
import Courier.Proofs.Time.Stamps

/-!
# Payloads are read exactly

A token is cut at its dots. It has a payload (`HasPayload`) if there are three parts at least and
the first three are not empty; the payload is the second. `payloadExact` says of every text what is
read from it: some octets if they are written as the payload, and nothing else; a fault of format if
there is no payload; and a fault of base64 if the payload is what no octets are written as.

So whoever writes an object of claims into a payload (`ClaimsToken`) has it read as what it says.
`ClaimsToken.identity_text` is about the mail address, the plan and the account (`Describes`), and
`ClaimsToken.expiry?_text_iff` about the time of expiry, which may be any whole number: those that
are no instant are not read. **`payloads_read_exactly`** puts these together.
-/

namespace Courier.Auth

open Courier.Json Courier.Text Courier.Text.Base64Url

/-! ## Payloads -/

/-- A token is cut at its dots into a header, a payload `p`, a signature and maybe more, where the
first three are not empty. -/
def HasPayload (token : String) (p : List Char) : Prop :=
  ∃ header signature more,
    token.toList = ['.'].intercalate (header :: p :: signature :: more) ∧
      (∀ part ∈ header :: p :: signature :: more, '.' ∉ part) ∧
        header ≠ [] ∧ p ≠ [] ∧ signature ≠ []

variable {token : String} {p : List Char}

/-- The parts of a token tell whether it has a payload. -/
theorem hasPayload_iff :
    HasPayload token p ↔
      ∃ header signature more, parts '.' token.toList = header :: p :: signature :: more ∧
        header ≠ [] ∧ p ≠ [] ∧ signature ≠ [] := by
  constructor
  · rintro ⟨header, signature, more, htoken, hfree, hne⟩
    refine ⟨header, signature, more, ?_, hne⟩
    rw [htoken, parts_intercalate (List.cons_ne_nil _ _) hfree]
  · rintro ⟨header, signature, more, hparts, hne⟩
    refine ⟨header, signature, more, ?_, ?_, hne⟩
    · rw [← hparts, intercalate_parts]
    · intro part hpart
      rw [← hparts] at hpart
      exact not_mem_of_mem_parts hpart

/-- A token has one payload at most. -/
theorem HasPayload.unique {q : List Char} (hp : HasPayload token p) (hq : HasPayload token q) :
    p = q := by
  obtain ⟨_, _, _, hparts, -⟩ := hasPayload_iff.mp hp
  obtain ⟨_, _, _, hothers, -⟩ := hasPayload_iff.mp hq
  rw [hparts] at hothers
  injection hothers with _ htail
  injection htail

/-- The payload of a token is read as base64. -/
theorem HasPayload.payload_eq (h : HasPayload token p) :
    payload token = (decodeOctets (octets (String.ofList p))).mapError .base64 := by
  obtain ⟨header, signature, more, hparts, hheader, hp, hsignature⟩ := hasPayload_iff.mp h
  obtain ⟨_, _, rfl⟩ := List.exists_cons_of_ne_nil hheader
  obtain ⟨_, _, rfl⟩ := List.exists_cons_of_ne_nil hp
  obtain ⟨_, _, rfl⟩ := List.exists_cons_of_ne_nil hsignature
  rw [payload, hparts]

/-- Without a payload nothing is read. -/
theorem payload_of_forall_not (h : ∀ p, ¬ HasPayload token p) : payload token = .error .format := by
  unfold payload
  split
  next hparts => exact absurd (hasPayload_iff.mpr ⟨_, _, _, hparts, by simp⟩) (h _)
  next => rfl

/-- Octets are read from a payload if they are written as it. -/
theorem HasPayload.payload_eq_ok_iff (h : HasPayload token p) {bytes : List UInt8} :
    payload token = .ok bytes ↔ p = encodeChars bytes := by
  rw [h.payload_eq, mapError_eq_ok_iff, decodeOctets_eq_ok_iff, octets_inj, encode,
    String.ofList_inj]

/-- What a token's payload is read as, and why it may not be read. -/
structure PayloadExact (token : String) : Prop where
  /-- Octets are read if the token has what they are written as for its payload. -/
  ok : ∀ bytes, payload token = .ok bytes ↔ HasPayload token (encodeChars bytes)
  /-- It is a fault of format if there is no payload. -/
  format : payload token = .error .format ↔ ¬ ∃ p, HasPayload token p
  /-- It is a fault of base64 if there is one that no octets are written as. -/
  base64 : (∃ f, payload token = .error (.base64 f)) ↔
    ∃ p, HasPayload token p ∧ ∀ bytes, p ≠ encodeChars bytes

/-- **Payloads are read exactly**, whatever the token is. -/
theorem payloadExact (token : String) : PayloadExact token := by
  by_cases hsome : ∃ p, HasPayload token p
  · obtain ⟨p, hp⟩ := hsome
    have hnotFormat : payload token ≠ .error .format := by
      rw [hp.payload_eq]
      cases decodeOctets (octets (String.ofList p)) <;> simp [Except.mapError]
    refine ⟨fun bytes => ?_, ?_, ?_⟩
    · rw [hp.payload_eq_ok_iff]
      constructor
      · rintro rfl
        exact hp
      · exact hp.unique
    · exact iff_of_false hnotFormat (not_not_intro ⟨p, hp⟩)
    · constructor
      · rintro ⟨f, hf⟩
        refine ⟨p, hp, fun bytes hbytes => ?_⟩
        rw [hp.payload_eq_ok_iff.mpr hbytes] at hf
        cases hf
      · rintro ⟨q, hq, hnone⟩
        obtain rfl := hp.unique hq
        cases hread : decodeOctets (octets (String.ofList p)) with
        | error f => exact ⟨f, by rw [hp.payload_eq, hread]; rfl⟩
        | ok bytes =>
          have hok : payload token = .ok bytes := by
            rw [hp.payload_eq, mapError_eq_ok_iff, hread]
          exact absurd (hp.payload_eq_ok_iff.mp hok) (hnone bytes)
  · have hnone : ∀ p, ¬ HasPayload token p := not_exists.mp hsome
    have hformat := payload_of_forall_not hnone
    refine ⟨fun bytes => ?_, iff_of_true hformat hsome, ?_⟩
    · exact iff_of_false (by rw [hformat]; nofun) (hnone _)
    · refine iff_of_false ?_ fun ⟨p, hp, _⟩ => hnone p hp
      rintro ⟨f, hf⟩
      rw [hformat] at hf
      cases hf

/-! ## What claims say -/

/-- A member that may be `null` or lacking holds a text or nothing. -/
inductive Tells (ms : List (String × Value)) (name : String) : Option String → Prop where
  /-- It holds a text. -/
  | text {s : String} (h : ms.lookup name = some (.string s)) : Tells ms name (some s)
  /-- It is `null`. -/
  | null (h : ms.lookup name = some .null) : Tells ms name none
  /-- It is not there. -/
  | lacking (h : ms.lookup name = none) : Tells ms name none

/-- What the claim of the authorization server says of the plan and of the account. -/
inductive TellsAccount (ms : List (String × Value)) : Option String → Option String → Prop where
  /-- It is an object, and may hold both. -/
  | claim {inner : List (String × Value)} {plan accountId : Option String}
      (h : ms.lookup "https://api.openai.com/auth" = some (.object inner))
      (hnodup : (inner.map Prod.fst).Nodup) (hplan : Tells inner "chatgpt_plan_type" plan)
      (haccount : Tells inner "chatgpt_account_id" accountId) : TellsAccount ms plan accountId
  /-- It is `null`. -/
  | null (h : ms.lookup "https://api.openai.com/auth" = some .null) : TellsAccount ms none none
  /-- It is not there. -/
  | lacking (h : ms.lookup "https://api.openai.com/auth" = none) : TellsAccount ms none none

/-- Among these claims, whatever else they say, are those about an account. -/
structure Describes (ms : List (String × Value)) (i : Identity) : Prop where
  email : Tells ms "email" i.email
  account : TellsAccount ms i.plan i.accountId

variable {ms : List (String × Value)}

/-- What a member holds is what is read. -/
theorem Tells.gives {name : String} {x : Option String} (h : Tells ms name x) :
    Gives ms (.omittable name .string) x := by
  unfold Gives
  cases h with
  | text h => rw [RecordField.omittable, RecordField.defaulted, h]; rfl
  | null h => rw [RecordField.omittable, RecordField.defaulted, h]; rfl
  | lacking h => rw [RecordField.omittable, RecordField.defaulted, h]; rfl

/-- The claim of the authorization server is read as what it says. -/
theorem AuthClaim.decode_object (hnodup : (ms.map Prod.fst).Nodup) {plan accountId : Option String}
    (hplan : Tells ms "chatgpt_plan_type" plan)
    (haccount : Tells ms "chatgpt_account_id" accountId) :
    AuthClaim.decode (Value.object ms).laid = .ok ⟨plan, accountId⟩ := by
  have hplan' : Gives ms planField plan := hplan.gives
  have haccount' : Gives ms accountIdField accountId := haccount.gives
  have hlegible : Legible [planField.probe, accountIdField.probe] (laidMembers ms) := by
    apply legible_laid hnodup
    simp only [List.forall_mem_cons, List.not_mem_nil, false_implies, implies_true, and_true]
    exact ⟨fun v => hplan'.fault_eq_none, fun v => haccount'.fault_eq_none⟩
  rw [AuthClaim.decode, laid_object, hlegible.cells]
  simp only [bind, Except.bind, hplan'.get [planField.probe, accountIdField.probe] rfl,
    haccount'.get [planField.probe, accountIdField.probe] rfl]
  rfl

/-- Members that tell the account give the claim that it stands in. -/
theorem TellsAccount.exists_gives {plan accountId : Option String}
    (h : TellsAccount ms plan accountId) :
    ∃ auth, Gives ms authClaim auth ∧ auth.bind (·.plan) = plan ∧
      auth.bind (·.accountId) = accountId := by
  cases h with
  | claim h hnodup hplan haccount =>
    have hread : authClaim.read (Value.object _).laid = .ok (some ⟨plan, accountId⟩) :=
      Decoder.option_eq_ok (by rw [laid_object]; nofun)
        (AuthClaim.decode_object hnodup hplan haccount)
    refine ⟨some ⟨plan, accountId⟩, ?_, rfl, rfl⟩
    have hlookup : ms.lookup authClaim.name = some (.object _) := h
    rw [Gives, hlookup]
    exact hread
  | null h =>
    have hlookup : ms.lookup authClaim.name = some .null := h
    refine ⟨none, ?_, rfl, rfl⟩
    rw [Gives, hlookup]
    rfl
  | lacking h =>
    have hlookup : ms.lookup authClaim.name = none := h
    refine ⟨none, ?_, rfl, rfl⟩
    rw [Gives, hlookup]
    rfl

/-- Claims about an account are read as what they say. -/
theorem decodeIdentityClaims_object (hnodup : (ms.map Prod.fst).Nodup) {i : Identity}
    (h : Describes ms i) : decodeIdentityClaims (Value.object ms).laid = .ok i := by
  have hemail : Gives ms emailClaim i.email := h.email.gives
  obtain ⟨auth, hauth, hplan, haccount⟩ := h.account.exists_gives
  have hlegible : Legible [emailClaim.probe, authClaim.probe] (laidMembers ms) := by
    apply legible_laid hnodup
    simp only [List.forall_mem_cons, List.not_mem_nil, false_implies, implies_true, and_true]
    exact ⟨fun v => hemail.fault_eq_none, fun v => hauth.fault_eq_none⟩
  rw [decodeIdentityClaims, laid_object, hlegible.cells]
  simp only [bind, Except.bind, hemail.get [emailClaim.probe, authClaim.probe] rfl,
    hauth.get [emailClaim.probe, authClaim.probe] rfl, hplan, haccount]
  rfl

/-! ## When a token expires -/

/-- A whole number is laid out as a number. -/
theorem laid_int (n : Int) :
    (Value.number (.int n)).laid = .number (Written.ofInt n).numeral.number :=
  Number.laid_eq rfl (Written.chars_ofInt n)

/-- A whole number is read from its text if it is one of 64 bits with a sign. -/
theorem int64_laid_iff {n k : Int} :
    Decoder.int64 (Value.number (.int n)).laid = .ok k ↔
      k = n ∧ Int64.minValue.toInt ≤ n ∧ n ≤ Int64.maxValue.toInt := by
  have hlow : -((Numeral.wordSize / 2 : Nat) : Int) = Int64.minValue.toInt := by decide
  have hhigh : Int64.maxValue.toInt < (Numeral.wordSize : Int) := by decide
  have hnumber : ∀ m, (Written.ofInt n).numeral.number = .ok (.int m) ↔
      m = n ∧ Int64.minValue.toInt ≤ n ∧ n < Numeral.wordSize := by
    intro m
    rw [← hlow]
    exact Written.number_ofInt_iff
  rw [laid_int]
  by_cases hfits : Int64.minValue.toInt ≤ n ∧ n < Numeral.wordSize
  · rw [(hnumber n).mpr ⟨rfl, hfits⟩]
    show (if Int64.minValue.toInt ≤ n ∧ n ≤ Int64.maxValue.toInt then
      Except.ok n else Except.error Fault.unsuitable) = .ok k ↔ _
    split
    next h =>
      rw [Except.ok.injEq, eq_comm]
      exact (and_iff_left h).symm
    next h => exact iff_of_false nofun fun hk => h hk.2
  · -- The digits of a number that does not fit are read as a float, or not at all.
    refine iff_of_false ?_ (by omega)
    cases hread : (Written.ofInt n).numeral.number with
    | error f => nofun
    | ok x =>
      cases x with
      | float x => nofun
      | int m => exact absurd ((hnumber m).mp hread).2 hfits

/-- A time of expiry of 64 bits is read as what it says. -/
theorem decodeExpiryClaim_object (hnodup : (ms.map Prod.fst).Nodup) {n : Int}
    (hn : ms.lookup "exp" = some (.number (.int n)))
    (hrange : Int64.minValue.toInt ≤ n ∧ n ≤ Int64.maxValue.toInt) :
    decodeExpiryClaim (Value.object ms).laid = .ok (some n) := by
  have hlookup : ms.lookup expiryClaim.name = some (.number (.int n)) := hn
  have hgives : Gives ms expiryClaim (some n) := by
    rw [Gives, hlookup]
    refine Decoder.option_eq_ok ?_ (int64_laid_iff.mpr ⟨rfl, hrange⟩)
    rw [laid_int]
    exact Reading.noConfusion
  have hlegible : Legible [expiryClaim.probe] (laidMembers ms) := by
    apply legible_laid hnodup
    simp only [List.forall_mem_cons, List.not_mem_nil, false_implies, implies_true, and_true]
    exact fun v => hgives.fault_eq_none
  rw [decodeExpiryClaim, laid_object, hlegible.cells]
  exact hgives.get [expiryClaim.probe] rfl

/-- A time of expiry that is read is one of 64 bits. -/
theorem range_of_decodeExpiryClaim {n : Int} (hn : ms.lookup "exp" = some (.number (.int n)))
    {x : Option Int} (h : decodeExpiryClaim (Value.object ms).laid = .ok x) :
    Int64.minValue.toInt ≤ n ∧ n ≤ Int64.maxValue.toInt := by
  rw [decodeExpiryClaim, laid_object] at h
  obtain ⟨c, hcells, -⟩ := bind_eq_ok_iff.mp h
  have hmem : ("exp", (Value.number (.int n)).laid) ∈ laidMembers ms := by
    obtain ⟨front, back, rfl, -⟩ := List.lookup_eq_some_iff.mp hn
    simp [laidMembers]
  have hfield : [expiryClaim.probe].lookup "exp" = some expiryClaim.fault := rfl
  obtain ⟨k, hk⟩ := RecordField.exists_read (fault_eq_none_of_cells hcells hmem hfield)
  have hread : (Decoder.int64 (Value.number (.int n)).laid).map some = .ok k := by
    rw [laid_int] at hk ⊢
    exact hk
  obtain ⟨m, hint, -⟩ := map_eq_ok_iff.mp hread
  exact (int64_laid_iff.mp hint).2

/-! ## Tokens with claims -/

/-- A token with an object of claims for its payload. -/
structure ClaimsToken where
  /-- What stands in front of the payload. -/
  header : String
  /-- The claims, each under its name. -/
  claims : List (String × Value)
  /-- What stands between the tokens of their text. -/
  spacing : Spacing
  /-- What stands behind the payload. -/
  signature : String
  header_ne : header ≠ ""
  header_free : '.' ∉ header.toList
  nodup : (claims.map Prod.fst).Nodup
  white : spacing.White
  signature_ne : signature ≠ ""
  signature_free : '.' ∉ signature.toList

namespace ClaimsToken

variable (t : ClaimsToken)

/-- The octets of the claims. -/
def json : List UInt8 :=
  octetsOf ((Value.object t.claims).chars t.spacing 0)

/-- The token. -/
def text : String :=
  t.header ++ "." ++ encode t.json ++ "." ++ t.signature

/-- The claims are the payload of the token. -/
theorem hasPayload_text : HasPayload t.text (encodeChars t.json) := by
  refine ⟨t.header.toList, t.signature.toList, [], ?_, ?_, ?_, ?_, ?_⟩
  · simp [text, encode, List.intercalate, List.intersperse]
  · simp only [List.forall_mem_cons, List.not_mem_nil, false_implies, implies_true, and_true]
    exact ⟨t.header_free, dot_not_mem_encodeChars t.json, t.signature_free⟩
  · simpa using t.header_ne
  · -- The text of an object starts with a brace, so it is written with one symbol at least.
    have hpos : 0 < t.json.length := by
      obtain ⟨b, bs, hoctets, -⟩ := (Value.object t.claims).exists_octet t.spacing 0
      rw [json, hoctets]
      exact Nat.succ_pos _
    rw [encodeChars_eq, ← List.length_pos_iff, List.length_map, length_sextets]
    omega
  · simpa using t.signature_ne

/-- The payload of a token that was written is what was written into it. -/
theorem payload_text : payload t.text = .ok t.json :=
  (payloadExact t.text).ok t.json |>.mpr t.hasPayload_text

/-- What the claims say of an account is what the token says of it. -/
theorem identity_text {i : Identity} (h : Describes t.claims i) : identity t.text = .ok i := by
  rw [identity, t.payload_text]
  show (Json.decodeOctets decodeIdentityClaims t.json).mapError ClaimsError.json = _
  rw [json, decodeOctets_chars t.white, decodeIdentityClaims_object t.nodup h]
  rfl

/-- The token expires at the instant that its claims say, if there is such an instant. -/
theorem expiry?_text_iff {n : Int} (hn : t.claims.lookup "exp" = some (.number (.int n)))
    {time : Time.Instant} : expiry? t.text = some time ↔ time.seconds = n ∧ time.nanos = 0 := by
  have hread : expiry? t.text =
      (decodeExpiryClaim (Value.object t.claims).laid).toOption.bind
        fun seconds => seconds.bind fun s => Time.Instant.of? s 0 := by
    rw [expiry?, t.payload_text, ← decodeOctets_chars t.white decodeExpiryClaim]
    rfl
  rw [hread]
  cases hclaim : decodeExpiryClaim (Value.object t.claims).laid with
  | ok x =>
    have hrange := range_of_decodeExpiryClaim hn hclaim
    rw [decodeExpiryClaim_object t.nodup hn hrange] at hclaim
    rw [← Except.ok.inj hclaim]
    exact Time.Instant.of?_eq_some_iff
  | error f =>
    -- The number is not one of 64 bits, and all instants are.
    refine iff_of_false nofun ?_
    rintro ⟨rfl, -⟩
    have hfirst : Int64.minValue.toInt ≤ Time.firstSecond := by decide
    have hlast : Time.lastSecond ≤ Int64.maxValue.toInt := by decide
    have hrange : Int64.minValue.toInt ≤ time.seconds ∧ time.seconds ≤ Int64.maxValue.toInt :=
      ⟨Int.le_trans hfirst time.first_le, Int.le_trans time.le_last hlast⟩
    rw [decodeExpiryClaim_object t.nodup hn hrange] at hclaim
    cases hclaim

/-- What a token with claims is read as. -/
structure Exact : Prop where
  /-- What the claims say of an account is read. -/
  identity : ∀ i, Describes t.claims i → identity t.text = .ok i
  /-- If they say when the token expires, that instant is read, and nothing if there is none. -/
  expiry : ∀ n : Int, t.claims.lookup "exp" = some (.number (.int n)) →
    ∀ time, expiry? t.text = some time ↔ time.seconds = n ∧ time.nanos = 0

end ClaimsToken

/-- **Payloads are read exactly.** -/
theorem payloads_read_exactly :
    (∀ token, PayloadExact token) ∧ ∀ t : ClaimsToken, t.Exact :=
  ⟨payloadExact, fun t => ⟨fun _ => t.identity_text, fun _ hn _ => t.expiry?_text_iff hn⟩⟩

/-- A token that says all there is to say. -/
def userToken : ClaimsToken where
  header := "eyJhbGciOiJub25lIn0"
  claims := [
    ("email", .string "user@example.com"),
    ("exp", .number (.int 1900000000)),
    ("https://api.openai.com/auth", .object [
      ("chatgpt_plan_type", .string "pro"),
      ("chatgpt_account_id", .string "acc-123")])]
  spacing := .compact
  signature := "c2ln"
  header_ne := by decide
  header_free := by decide
  nodup := by decide
  white := Spacing.white_compact
  signature_ne := by decide
  signature_free := by decide

/-- The mail address, the plan and the account are read from the token, and its time of expiry, and
a token with two parts is one of a wrong format. -/
theorem userToken_read :
    identity userToken.text = .ok ⟨some "user@example.com", some "pro", some "acc-123"⟩ ∧
      (∀ time, expiry? userToken.text = some time ↔
        time.seconds = 1900000000 ∧ time.nanos = 0) ∧
      payload "only.two" = .error .format := by
  refine ⟨(payloads_read_exactly.2 userToken).identity _ ?_,
    (payloads_read_exactly.2 userToken).expiry _ rfl,
    (payloads_read_exactly.1 "only.two").format.mpr ?_⟩
  · exact ⟨.text rfl, .claim rfl (by decide) (.text rfl) (.text rfl)⟩
  · rintro ⟨p, hp⟩
    obtain ⟨header, signature, more, hparts, -⟩ := hasPayload_iff.mp hp
    have htwo : parts '.' "only.two".toList = ["only".toList, "two".toList] := by decide
    rw [htwo] at hparts
    cases hparts

end Courier.Auth
