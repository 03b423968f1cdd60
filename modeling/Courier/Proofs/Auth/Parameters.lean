import Courier.Auth.Issuer
import Courier.Proofs.Text.Percent
import Courier.Proofs.Text.Trimming
import Courier.Text.Split

/-!
# What the issuer is told is what was meant

The issuer is told things in two places: in the query of the URL that a user is sent to, and in the
form that exchanges a code. In both, fields are separated by ampersands, and a name is separated
from its value by the first equals sign. They are read with different decoders: in a form a plus
sign is a space.

**`Auth.Config.parameters_read_back`**: both readers get exactly the fields that were meant, with
the values as they were, whatever these hold. No value can end its field, begin another one or be
taken for something else, for the signs of the two readers do not occur in an encoded value.

* `Text.ReadsEncoded`: what a decoder has to do for that, which both decoders do.
* `Text.readFields?_formText`: the fields of any text that is put together in this way.
-/

namespace Courier

/-! ## Reading fields -/

namespace Text

/-- A field cut at its first equals sign, with both parts decoded. -/
def readField? (decode? : String → Option String) (cs : List Char) : Option (String × String) := do
  let name ← decode? (String.ofList (cs.takeWhile (· != '=')))
  let value ← decode? (String.ofList ((cs.dropWhile (· != '=')).drop 1))
  return (name, value)

/-- The fields of a text, cut at the ampersands. -/
def readFields? (decode? : String → Option String) (s : String) :
    Option (List (String × String)) :=
  (parts '&' s.toList).mapM (readField? decode?)

/-- The text that a part of a form stands for: plus signs are spaces. -/
def decodeForm? (s : String) : Option String :=
  Percent.decode? (s.map fun c => if c = '+' then ' ' else c)

/-- The fields of a query. -/
def readQuery? : String → Option (List (String × String)) :=
  readFields? Percent.decode?

/-- The fields of a form. -/
def readForm? : String → Option (List (String × String)) :=
  readFields? decodeForm?

/-- A decoder reads encoded texts, and texts that need no encoding. -/
structure ReadsEncoded (decode? : String → Option String) : Prop where
  /-- It reads back what is encoded. -/
  encoded : ∀ s, decode? (Percent.encode s) = some s
  /-- It takes unreserved characters as they are. -/
  bare : ∀ s : String, (∀ c ∈ s.toList, Percent.isUnreserved c) → decode? s = some s

/-- The reader of queries reads what is encoded. -/
theorem readsEncoded_percent : ReadsEncoded Percent.decode? where
  encoded := Percent.decode?_encode
  bare _ := Percent.decode?_of_unreserved

/-- Without plus signs a part of a form is read as a part of a query. -/
theorem decodeForm?_of_not_mem {s : String} (h : '+' ∉ s.toList) :
    decodeForm? s = Percent.decode? s := by
  have hsame : s.toList.map (fun c => if c = '+' then ' ' else c) = s.toList := by
    refine (List.map_congr_left fun c hc => if_neg ?_).trans (List.map_id' _)
    rintro rfl
    exact h hc
  rw [decodeForm?, ← String.ofList_toList (s := s.map _), String.toList_map, hsame,
    String.ofList_toList]

/-- So does the reader of forms, which takes a plus for a blank: none is written. -/
theorem readsEncoded_form : ReadsEncoded decodeForm? where
  encoded s := by
    rw [decodeForm?_of_not_mem, Percent.decode?_encode]
    intro hplus
    obtain h | h := Percent.plain_of_mem_encode hplus
    · exact absurd h (by decide)
    · exact absurd h (by decide)
  bare s h := by
    rw [decodeForm?_of_not_mem fun hplus => absurd (h _ hplus) (by decide),
      Percent.decode?_of_unreserved h]

/-! ## Signs between fields -/

/-- The characters of fields: those that stand in an encoded text, and the two separators. -/
def IsFieldChar (c : Char) : Prop :=
  Percent.isUnreserved c ∨ c = '%' ∨ c = '&' ∨ c = '='

/-- The names of some fields need no encoding. -/
def BareNames (fields : List (String × String)) : Prop :=
  ∀ f ∈ fields, ∀ c ∈ f.1.toList, Percent.isUnreserved c

/-- Whether names need no encoding is found out character by character. -/
theorem bareNames_iff {fields : List (String × String)} : BareNames fields ↔
    (fields.map Prod.fst).all fun name => name.toList.all Percent.isUnreserved := by
  simp [BareNames]

/-- A field as it is written. -/
def fieldChars (f : String × String) : List Char :=
  f.1.toList ++ '=' :: (Percent.encode f.2).toList

variable {decode? : String → Option String} {f : String × String}
  {fields : List (String × String)}

/-- A field as it is written is read back. -/
theorem readField?_fieldChars (hd : ReadsEncoded decode?)
    (hname : ∀ c ∈ f.1.toList, Percent.isUnreserved c) :
    readField? decode? (fieldChars f) = some f := by
  have hnone : ∀ c ∈ f.1.toList, (c != '=') = true := fun c hc => by
    refine bne_iff_ne.2 ?_
    rintro rfl
    exact absurd (hname _ hc) (by decide)
  have hfront : (fieldChars f).takeWhile (· != '=') = f.1.toList := by
    rw [fieldChars, List.takeWhile_append_of_pos hnone]
    simp
  have hback : (fieldChars f).dropWhile (· != '=') = '=' :: (Percent.encode f.2).toList := by
    rw [fieldChars, List.dropWhile_append_of_pos hnone]
    simp
  rw [readField?, hfront, hback, List.drop_one, List.tail_cons, String.ofList_toList,
    String.ofList_toList, hd.bare _ hname, hd.encoded]
  rfl

/-- A field has no ampersand in it, and no character that may not stand in a form. -/
theorem isFieldChar_of_mem_fieldChars (hname : ∀ c ∈ f.1.toList, Percent.isUnreserved c)
    {c : Char} (h : c ∈ fieldChars f) : c ≠ '&' ∧ IsFieldChar c := by
  have hplain : Percent.isUnreserved c ∨ c = '%' ∨ c = '=' := by
    rw [fieldChars, List.mem_append, List.mem_cons] at h
    obtain h | h | h := h
    · exact Or.inl (hname c h)
    · exact Or.inr (Or.inr h)
    · exact (Percent.plain_of_mem_encode h).imp_right Or.inl
  refine ⟨?_, hplain.imp_right fun h => h.imp_right Or.inr⟩
  rintro rfl
  exact absurd hplain (by decide)

/-- A form is its fields with ampersands between them. -/
theorem toList_formText (fields : List (String × String)) :
    (Auth.Config.formText fields).toList = ['&'].intercalate (fields.map fieldChars) := by
  rw [Auth.Config.formText, String.toList_intercalate, List.map_map]
  congr 1
  refine List.map_congr_left fun f _ => ?_
  show (f.1 ++ "=" ++ Percent.encode f.2).toList = fieldChars f
  simp [fieldChars]

/-- **Fields that are put together are read back**, each by its name with its value. -/
theorem readFields?_formText (hd : ReadsEncoded decode?) (hne : fields ≠ [])
    (hnames : BareNames fields) :
    readFields? decode? (Auth.Config.formText fields) = some fields := by
  have hparts : parts '&' (Auth.Config.formText fields).toList = fields.map fieldChars := by
    rw [toList_formText]
    refine parts_intercalate (by simpa using hne) fun part hpart hmem => ?_
    obtain ⟨f, hf, rfl⟩ := List.mem_map.1 hpart
    exact (isFieldChar_of_mem_fieldChars (hnames f hf) hmem).1 rfl
  rw [readFields?, hparts]
  clear hparts hne
  induction fields with
  | nil => rfl
  | cons f fields ih =>
    obtain ⟨hname, hnames⟩ := List.forall_mem_cons.1 hnames
    rw [List.map_cons, List.mapM_cons, readField?_fieldChars hd hname, ih hnames]
    rfl

/-- What stands between parts is the separator. -/
theorem mem_of_mem_intercalate {separator c : Char} {ps : List (List Char)}
    (h : c ∈ [separator].intercalate ps) : c = separator ∨ ∃ part ∈ ps, c ∈ part := by
  induction ps with
  | nil => exact absurd h List.not_mem_nil
  | cons part rest ih =>
    match rest with
    | [] =>
      rw [List.intercalate_singleton] at h
      exact Or.inr ⟨part, List.mem_cons_self, h⟩
    | next :: more =>
      rw [List.intercalate_cons_cons, List.mem_append, List.mem_append] at h
      obtain (h | h) | h := h
      · exact Or.inr ⟨part, List.mem_cons_self, h⟩
      · exact Or.inl (List.mem_singleton.1 h)
      · exact (ih h).imp_right fun ⟨p, hp, hc⟩ => ⟨p, List.mem_cons_of_mem _ hp, hc⟩

/-- Fields that are put together make a text of unreserved characters, percent signs and
separators. -/
theorem isFieldChar_of_mem_formText (hnames : BareNames fields) {c : Char}
    (h : c ∈ (Auth.Config.formText fields).toList) : IsFieldChar c := by
  rw [toList_formText] at h
  obtain rfl | ⟨part, hpart, hc⟩ := mem_of_mem_intercalate h
  · exact Or.inr (Or.inr (Or.inl rfl))
  · obtain ⟨f, hf, rfl⟩ := List.mem_map.1 hpart
    exact (isFieldChar_of_mem_fieldChars (hnames f hf) hc).2

end Text

/-! ## What the issuer is told -/

namespace Auth.Config

open Text

variable (config : Config)

/-- The names of the query need no encoding. -/
theorem bareNames_authorizeQuery (challenge state : String) :
    BareNames (config.authorizeQuery challenge state) := by
  rw [bareNames_iff]
  show List.all ["response_type", "client_id", "redirect_uri", "scope", "code_challenge",
    "code_challenge_method", "id_token_add_organizations", "state"] _ = true
  decide

/-- The names of the form need no encoding. -/
theorem bareNames_exchangeForm (verifier code : String) :
    BareNames (config.exchangeForm verifier code) := by
  rw [bareNames_iff]
  show List.all ["grant_type", "code", "redirect_uri", "client_id", "code_verifier"] _ = true
  decide

/-- **The issuer reads what was meant.** The URL that a user is sent to starts with the issuer,
slashes at its end apart. What follows it and `/oauth/authorize?` is a query with eight fields, and
the body of the request that exchanges a code is a form with five. Both are read with the values as
they were, and both are written with unreserved characters, percent signs, ampersands and equals
signs only. -/
theorem parameters_read_back (challenge state code verifier : String) :
    (∃ slashes, config.base ++ String.ofList (List.replicate slashes '/') = config.issuer) ∧
    config.base.toList.getLast? ≠ some '/' ∧
    (∃ query, config.authorizeUrl challenge state = config.base ++ "/oauth/authorize?" ++ query ∧
      readQuery? query = some [
        ("response_type", "code"),
        ("client_id", config.clientId),
        ("redirect_uri", config.redirectUri),
        ("scope", config.scope),
        ("code_challenge", challenge),
        ("code_challenge_method", "S256"),
        ("id_token_add_organizations", "true"),
        ("state", state)] ∧
      ∀ c ∈ query.toList, IsFieldChar c) ∧
    readForm? (config.exchangeDraft verifier code).body = some [
      ("grant_type", "authorization_code"),
      ("code", code),
      ("redirect_uri", config.redirectUri),
      ("client_id", config.clientId),
      ("code_verifier", verifier)] ∧
    ∀ c ∈ (config.exchangeDraft verifier code).body.toList, IsFieldChar c := by
  have hquery := config.bareNames_authorizeQuery challenge state
  have hform := config.bareNames_exchangeForm verifier code
  refine ⟨trimEnd_append '/' config.issuer, getLast?_trimEnd '/' config.issuer,
    ⟨formText (config.authorizeQuery challenge state), rfl, ?_, ?_⟩, ?_, ?_⟩
  · exact readFields?_formText readsEncoded_percent (List.cons_ne_nil _ _) hquery
  · exact fun c hc => isFieldChar_of_mem_formText hquery hc
  · exact readFields?_formText readsEncoded_form (List.cons_ne_nil _ _) hform
  · exact fun c hc => isFieldChar_of_mem_formText hform hc

end Auth.Config

end Courier
