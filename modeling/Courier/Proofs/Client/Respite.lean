import Courier.Proofs.Client.Retrying
import Courier.Proofs.Text.Trimming
import Mathlib.Data.Nat.Digits.Defs

/-!
# Respites

A backend that is busy or broken may ask to be left alone for a number of seconds, which it writes
in as many digits as it likes (`Response.AsksRespite`). Such a respite is kept if the wait before
the next try is as long, or the longest wait where the respite is longer.

The reader of the header takes numbers that are words of 64 bits; a larger one counts as none
(`retryAfter?_of_asks`), and then the wait is computed from the number of the try. From the tenth
try on that is the longest wait, too (`backoff_eq_longestWait_iff`), and before it is shorter.

**`respite_kept_iff`** says of every call with tries, whatever the backend replies, which replies a
wait comes after and when it keeps the respite (`Call.KeepsRespites`). In `overlongCall` there is a
respite that is not kept: it is the longest of all, and it gets the shortest wait.
-/

namespace Courier

open Courier.Auth Courier.Http Courier.Numeric Courier.Text Courier.Time

/-! ## In a header -/

/-- The number that a row of decimal digits stands for. -/
def Http.Header.numberOf (digits : List UInt8) : Nat :=
  Nat.ofDigits 10 (digits.reverse.map fun b => b.toNat - 0x30)

/-- A response asks for `n` seconds of respite: the first header of that name is a row of decimal
digits that stands for `n`, between white space or not. Of all white space, a value has blanks and
tabs only. -/
def Http.Response.AsksRespite (r : Response) (n : Nat) : Prop :=
  ∃ before digits after : List UInt8,
    r.header? "retry-after" = some (before ++ digits ++ after) ∧
    (∀ b ∈ before ++ after, b = 0x20 ∨ b = 0x09) ∧
    digits ≠ [] ∧ (∀ b ∈ digits, 0x30 ≤ b ∧ b ≤ 0x39) ∧ Header.numberOf digits = n

/-- The failure that a status tells of may pass. -/
def Http.Status.MayPass (s : Status) : Prop :=
  s.code = 408 ∨ s.code = 429 ∨ 500 ≤ s.code ∧ s.code < 600

namespace Client

/-- An octet as a character. -/
def charOf (b : UInt8) : Char :=
  Char.ofNat b.toNat

/-- The character of an octet has its number. -/
theorem toNat_charOf (b : UInt8) : (charOf b).toNat = b.toNat := by
  have hlt := b.toNat_lt
  rw [charOf, Char.ofNat, dif_pos (.inl (by omega))]
  rfl

/-- The octet of a digit is a digit as a character. -/
theorem isDigit_charOf {b : UInt8} (h : 0x30 ≤ b ∧ b ≤ 0x39) : (charOf b).isDigit = true := by
  have hleast : 0x30 ≤ b.toNat := UInt8.le_iff_toNat_le.mp h.1
  have hgreatest : b.toNat ≤ 0x39 := UInt8.le_iff_toNat_le.mp h.2
  have hdigit : charOf b = digitChar (b.toNat - 0x30) := by
    unfold charOf digitChar
    congr 1
    omega
  rw [hdigit]
  exact isDigit_digitChar (by omega)

/-- Digits may stand in a header that is read as text. -/
theorem isVisible_of_digit {b : UInt8} (h : 0x30 ≤ b ∧ b ≤ 0x39) : Header.isVisible b = true := by
  have hleast : 0x30 ≤ b.toNat := UInt8.le_iff_toNat_le.mp h.1
  have hgreatest : b.toNat ≤ 0x39 := UInt8.le_iff_toNat_le.mp h.2
  simp only [Header.isVisible, Bool.or_eq_true, Bool.and_eq_true, decide_eq_true_eq,
    UInt8.le_iff_toNat_le, UInt8.lt_iff_toNat_lt]
  exact .inr ⟨hleast.trans' (by decide), hgreatest.trans_lt (by decide)⟩

/-- So may blanks and tabs. -/
theorem isVisible_of_blank {b : UInt8} (h : b = 0x20 ∨ b = 0x09) : Header.isVisible b = true := by
  rcases h with rfl | rfl <;> decide

/-- Blanks and tabs are white space. -/
theorem isBlank_charOf {b : UInt8} (h : b = 0x20 ∨ b = 0x09) : isBlank (charOf b) = true := by
  rcases h with rfl | rfl <;> decide

/-- The digits are read as the number that they stand for. -/
theorem ofDigits_map_charOf (digits : List UInt8) :
    ofDigits (digits.map charOf) = Header.numberOf digits := by
  induction digits using List.reverseRecOn with
  | nil => rfl
  | append_singleton digits b ih =>
    have hvalue : digitValue (charOf b) = b.toNat - 0x30 := by rw [digitValue, toNat_charOf]
    rw [List.map_append, List.map_singleton, ofDigits_append_singleton, ih, hvalue]
    simp only [Header.numberOf, List.reverse_append, List.reverse_singleton, List.singleton_append,
      List.map_cons, Nat.ofDigits_cons]
    omega

/-- A row of digits is read as a number of seconds, unless that is too large for a word. -/
theorem seconds?_of_digits {cs : List Char} (hne : cs ≠ [])
    (hdigits : ∀ c ∈ cs, c.isDigit = true) :
    seconds? cs = if ofDigits cs < secondsBound then some (ofDigits cs) else none := by
  have hall : cs.all Char.isDigit = true := List.all_eq_true.mpr hdigits
  unfold seconds?
  split
  next rest => exact absurd (hdigits '+' List.mem_cons_self) (by decide)
  next => simp [hne, hall]

/-- Digits between white space are text. -/
theorem text?_spaced {before digits after : List UInt8}
    (hblank : ∀ b ∈ before ++ after, b = 0x20 ∨ b = 0x09)
    (hdigits : ∀ b ∈ digits, 0x30 ≤ b ∧ b ≤ 0x39) :
    Header.text? (before ++ digits ++ after) =
      some (String.ofList ((before ++ digits ++ after).map charOf)) := by
  have hvisible : ∀ b ∈ before ++ digits ++ after, Header.isVisible b = true := by
    intro b hb
    simp only [List.mem_append] at hb hblank
    rcases hb with (hb | hb) | hb
    · exact isVisible_of_blank (hblank b (.inl hb))
    · exact isVisible_of_digit (hdigits b hb)
    · exact isVisible_of_blank (hblank b (.inr hb))
  exact if_pos (List.all_eq_true.mpr hvisible)

/-- They are what is left of that text when it is trimmed. -/
theorem toList_trim_spaced {before digits after : List UInt8}
    (hblank : ∀ b ∈ before ++ after, b = 0x20 ∨ b = 0x09)
    (hdigits : ∀ c ∈ digits.map charOf, c.isDigit = true) :
    (trim (String.ofList ((before ++ digits ++ after).map charOf))).toList =
      digits.map charOf := by
  have hisBlank : ∀ bs ⊆ before ++ after, ∀ c ∈ bs.map charOf, isBlank c = true := by
    intro bs hbs c hc
    obtain ⟨b, hb, rfl⟩ := List.mem_map.mp hc
    exact isBlank_charOf (hblank b (hbs hb))
  rw [trim, String.toList_ofList, String.toList_ofList, List.map_append, List.map_append]
  apply stripWhile_append
  · exact hisBlank before (List.subset_append_left _ _)
  · exact fun c hc => isBlank_of_isDigit (hdigits c hc)
  · exact hisBlank after (List.subset_append_right _ _)

/-- **What a response asks for is understood** if the number is a word, and else it is as if it had
asked for nothing. -/
theorem retryAfter?_of_asks {r : Response} {n : Nat} (h : r.AsksRespite n) :
    retryAfter? r = if n < UInt64.size then some n else none := by
  obtain ⟨before, digits, after, hheader, hblank, hne, hdigits, rfl⟩ := h
  have hisDigit : ∀ c ∈ digits.map charOf, c.isDigit = true := by
    intro c hc
    obtain ⟨b, hb, rfl⟩ := List.mem_map.mp hc
    exact isDigit_charOf (hdigits b hb)
  unfold retryAfter?
  rw [hheader, Option.bind_eq_bind, Option.bind_some, text?_spaced hblank hdigits,
    Option.bind_eq_bind, Option.bind_some, toList_trim_spaced hblank hisDigit,
    seconds?_of_digits (by simpa using hne) hisDigit, ofDigits_map_charOf]
  rfl

/-! ## In a wait -/

variable {jitter : Rat}

/-- **A computed wait is the longest one from the tenth try on**, and only then. -/
theorem backoff_eq_longestWait_iff (hleast : leastJitter ≤ jitter) (hbound : jitter < jitterBound)
    (attempt : Nat) : backoff attempt jitter = longestWait ↔ 10 ≤ attempt := by
  have hiff : backoff attempt jitter = longestWait ↔ (64000 : Rat) ≤ baseWait attempt * jitter := by
    have hfloor : longestWait ≤ (baseWait attempt * jitter).floor.toNat ↔
        (64000 : Int) ≤ (baseWait attempt * jitter).floor := by
      unfold longestWait
      omega
    rw [backoff, min_eq_right_iff, hfloor, Rat.le_floor_iff]
    rfl
  have hjitter : 0 ≤ jitter := le_trans (by decide +kernel) hleast
  rw [hiff]
  constructor
  · intro hlong
    by_contra hfew
    have hdoublings : min (attempt - 1) 16 ≤ 8 := by omega
    have hbase : baseWait attempt ≤ 51200 :=
      Nat.mul_le_mul_left 200 (Nat.pow_le_pow_right (n := 2) (by decide) hdoublings)
    have hproduct : (baseWait attempt : Rat) * jitter ≤ 51200 * jitterBound :=
      mul_le_mul (mod_cast hbase) hbound.le hjitter (by decide +kernel)
    exact absurd (hlong.trans hproduct) (by decide +kernel)
  · intro hmany
    have hdoublings : 9 ≤ min (attempt - 1) 16 := by omega
    have hbase : 102400 ≤ baseWait attempt :=
      Nat.mul_le_mul_left 200 (Nat.pow_le_pow_right (n := 2) (by decide) hdoublings)
    calc (64000 : Rat) ≤ 102400 * leastJitter := by decide +kernel
      _ ≤ baseWait attempt * jitter :=
        mul_le_mul (mod_cast hbase) hleast (by decide +kernel) (Nat.cast_nonneg _)

/-- No wait is longer than the longest one. -/
theorem Wait.millis_le (w : Wait) (jitter : Rat) : w.millis jitter ≤ longestWait := by
  cases w with
  | requested seconds => exact min_le_right _ _
  | backoff attempt => exact min_le_right _ _

/-- **The wait for a respite is as long as the respite**, up to the longest wait, exactly if the
number of seconds is a word, or if the computed wait is the longest one anyway. -/
theorem Wait.millis_due_iff {r : Response} {n : Nat} (h : r.AsksRespite n)
    (hleast : leastJitter ≤ jitter) (hbound : jitter < jitterBound) (attempt : Nat) :
    (Wait.due (retryAfter? r) attempt).millis jitter = min (1000 * n) longestWait ↔
      n < UInt64.size ∨ 10 ≤ attempt := by
  rw [retryAfter?_of_asks h]
  by_cases hword : n < UInt64.size
  · rw [if_pos hword]
    exact iff_of_true rfl (.inl hword)
  · have hlong : min (1000 * n) longestWait = longestWait := by
      apply min_eq_right
      unfold longestWait
      unfold UInt64.size at hword
      omega
    rw [if_neg hword, hlong]
    simp only [hword, false_or]
    exact backoff_eq_longestWait_iff hleast hbound attempt

/-! ## In a call -/

variable {c : Client} {request : Wire.Request} {session : Option String} {x : Call}
  {ds es : List Deed} {r : Response}

/-- What a reply means whose status tells of a failure that may pass. -/
theorem Outcome.ofReply_of_mayPass (h : r.status.MayPass) :
    Outcome.ofReply (.answered r) = .final (.error (match r.text? with
      | some body => .transient ⟨some r.status, retryAfter? r, body⟩
      | none => .ofExchange .unreadable)) := by
  unfold Status.MayPass at h
  have hcode : r.status.code ≠ bearerRefusedCode := by
    unfold bearerRefusedCode
    omega
  have hclassify : ∀ body, classify r.status body (retryAfter? r) =
      .error (.transient ⟨some r.status, retryAfter? r, body⟩) := by
    intro body
    have hsuccess : ¬ r.status.isSuccess = true := by
      simp only [Status.isSuccess, Bool.and_eq_true, decide_eq_true_eq]
      omega
    have hrejected : ¬ (r.status.code = 400 ∨ r.status.code = 422) := by omega
    have hpassing : r.status.code = 408 ∨ r.status.code = 429 ∨ r.status.isServerError = true := by
      simp only [Status.isServerError, Bool.and_eq_true, decide_eq_true_eq]
      exact h
    rw [classify, if_neg hsuccess, if_neg hrejected, if_pos hpassing]
  rw [Outcome.ofReply, if_neg hcode]
  cases r.text? with
  | none => rfl
  | some body => exact congrArg Outcome.final (hclassify body)

/-- In a call without further tries the replies refuse the bearer, but for one that ends it. -/
theorem Course.replies_cases {body : String} {result : Except Error Payload}
    (h : Course c body session ds (.about (.done result))) :
    (∀ a, .replied (.answered a) ∈ ds → a.status.code = 401) ∨
      ∃ front reply, ds = front ++ [.replied reply] ∧ Outcome.ofReply reply = .final result ∧
        ∀ a, .replied (.answered a) ∈ front → a.status.code = 401 := by
  cases h with
  | first now h =>
    cases h with
    | denied f => exact .inl (by simp)
    | @settled b reply _ hr =>
      exact .inr ⟨[.asked (.valid now), .told (.ok b), .posted (c.draft body session b)], reply,
        rfl, hr, by simp⟩
  | @second now b a ha _ _ h =>
    have hfirst : ∀ a', .replied (.answered a') ∈ c.refusal body session now b a →
        a'.status.code = 401 := by
      intro a' ha'
      obtain rfl : a' = a := by simpa [refusal] using ha'
      exact ha
    cases h with
    | denied f => exact .inl fun a' ha' => hfirst a' (by simpa using ha')
    | @settled fresh reply _ hr =>
      refine .inr ⟨c.refusal body session now b a ++
        [.told (.ok fresh), .posted (c.draft body session fresh)], reply, rfl, hr, ?_⟩
      exact fun a' ha' => hfirst a' (by simpa using ha')
  | @refusedTwice now b fresh a a' ha ha' =>
    refine .inl fun a'' hmem => ?_
    have hcases : a'' = a ∨ a'' = a' := by simpa [refusal] using hmem
    rcases hcases with rfl | rfl
    · exact ha
    · exact ha'

/-- **A reply that does not refuse the bearer ends a call without further tries.** -/
theorem Call.Of.of_replied (h : x.Of (c.send request session))
    (hdeeds : x.deeds = ds ++ .replied (.answered r) :: es) (hr : r.status.code ≠ 401) :
    es = [] ∧ ds.countP Deed.begins = 1 ∧ Outcome.ofReply (.answered r) = .final x.result := by
  have hcourse : Course c request.encode.render session x.deeds (.about (.done x.result)) :=
    h.course
  rcases hcourse.replies_cases with hrefused | ⟨front, reply, hfront, hreply, hrefused⟩
  · exact absurd (hrefused r (by simp [hdeeds])) hr
  · rw [hdeeds] at hfront
    rcases es.eq_nil_or_concat with rfl | ⟨init, last, rfl⟩
    · obtain ⟨-, hlast⟩ := List.append_inj' hfront rfl
      obtain rfl : .answered r = reply := by simpa using hlast
      obtain ⟨hsends, -⟩ := h.sends_eq
      rw [Call.sends, hdeeds, List.countP_append] at hsends
      exact ⟨rfl, hsends, hreply⟩
    · rw [List.concat_eq_append, ← List.cons_append, ← List.append_assoc] at hfront
      obtain ⟨hinit, -⟩ := List.append_inj' hfront rfl
      exact absurd (hrefused r (by simp [← hinit])) hr

/-- A call that such a reply ends fails in a way that may go away, unless the reply cannot be read. -/
theorem Call.fails_of_mayPass (hend : Outcome.ofReply (.answered r) = .final x.result)
    (hpass : r.status.MayPass) :
    r.body = none ∧ ¬ x.Fails ∨ x.Fails ∧ x.retryAfter? = Client.retryAfter? r := by
  obtain ⟨deeds, result⟩ := x
  rw [Outcome.ofReply_of_mayPass hpass, Outcome.final.injEq] at hend
  cases htext : r.text? with
  | none =>
    rw [htext] at hend
    refine .inl ⟨by simpa [Response.text?] using htext, ?_⟩
    rintro ⟨t, ht⟩
    cases hend.trans ht
  | some body =>
    rw [htext] at hend
    obtain rfl := hend
    exact .inr ⟨⟨_, rfl⟩, rfl⟩

/-- **What follows a failure that may pass.** In a call with tries, of which some are past, it is
nothing, if the failure cannot be read or no tries are left, and else the wait that is due. -/
theorem Call.Of.after_replied {retries : Nat} (past : Nat)
    (h : x.Of (retrying (c.send request session) retries (past + 1)))
    (hdeeds : x.deeds = ds ++ .replied (.answered r) :: es) (hpass : r.status.MayPass) :
    es = [] ∧ (r.body = none ∨ ds.countP Deed.begins = retries + 1) ∨
      ∃ rest, es = .waited (.due (Client.retryAfter? r) (past + ds.countP Deed.begins)) :: rest := by
  have hcode : r.status.code ≠ 401 := by
    unfold Status.MayPass at hpass
    omega
  -- The single calls are gone through, up to the one that has the reply.
  induction retries generalizing past x ds with
  | zero =>
    obtain ⟨rfl, hcount, -⟩ := Call.Of.of_replied h hdeeds hcode
    exact .inl ⟨rfl, .inr hcount⟩
  | succ retries ih =>
    rcases Call.of_retrying_succ_iff.mp h with ⟨hx, hfails⟩ | ⟨y, z, hy, hfails, hz, rfl⟩
    · obtain ⟨rfl, -, hend⟩ := hx.of_replied hdeeds hcode
      rcases Call.fails_of_mayPass hend hpass with ⟨hbody, -⟩ | ⟨hfails', -⟩
      · exact .inl ⟨rfl, .inl hbody⟩
      · exact absurd hfails' hfails
    · have hsplit : y.deeds ++ .waited (y.wait (past + 1)) :: z.deeds =
          ds ++ .replied (.answered r) :: es := by
        rw [← hdeeds]
        simp [Call.after]
      rcases List.append_eq_append_iff.mp hsplit with ⟨cs, rfl, hrest⟩ | ⟨cs, hydeeds, hrest⟩
      · -- The reply comes after the wait.
        obtain ⟨front, rfl, hzdeeds⟩ : ∃ front, cs = .waited (y.wait (past + 1)) :: front ∧
            z.deeds = front ++ .replied (.answered r) :: es := by
          simpa [List.cons_eq_append_iff] using hrest
        have hcount : (y.deeds ++ .waited (y.wait (past + 1)) :: front).countP Deed.begins =
            1 + front.countP Deed.begins := by
          obtain ⟨hsends, -⟩ := hy.sends_eq
          rw [Call.sends] at hsends
          rw [List.countP_append, hsends]
          rfl
        have hlast : 1 + front.countP Deed.begins = retries + 1 + 1 ↔
            front.countP Deed.begins = retries + 1 := by omega
        rw [hcount, hlast, ← Nat.add_assoc]
        exact ih (past + 1) hz hzdeeds
      · -- The reply ends the call before the wait.
        obtain ⟨rest, rfl, rfl⟩ : ∃ rest, cs = .replied (.answered r) :: rest ∧
            es = rest ++ .waited (y.wait (past + 1)) :: z.deeds := by
          simpa [List.cons_eq_append_iff] using hrest
        obtain ⟨rfl, hcount, hend⟩ := hy.of_replied hydeeds hcode
        rcases Call.fails_of_mayPass hend hpass with ⟨-, hfails'⟩ | ⟨-, hasked⟩
        · exact absurd hfails hfails'
        · refine .inr ⟨z.deeds, ?_⟩
          rw [hcount, List.nil_append, Call.wait, hasked]

/-- In a call the wait `w` comes right after the reply `r`, which try number `number` got. -/
def Call.WaitsAfter (x : Call) (number : Nat) (r : Response) (w : Wait) : Prop :=
  ∃ ds rest, x.deeds = ds ++ .replied (.answered r) :: .waited w :: rest ∧
    ds.countP Deed.begins = number

/-- What becomes of the respites that are asked for in a call with so many tries after the first. -/
structure Call.KeepsRespites (x : Call) (retries : Nat) : Prop where
  /-- No wait is longer than 64 seconds, whatever the headers are. -/
  bounded : ∀ w ∈ x.waits, ∀ jitter, w.millis jitter ≤ 64000
  /-- There is a wait after a failure that may pass, if it can be read and there are tries left. -/
  waits : ∀ ds r es, x.deeds = ds ++ .replied (.answered r) :: es → r.status.MayPass →
    r.body.isSome → ds.countP Deed.begins ≤ retries →
    ∃ w, x.WaitsAfter (ds.countP Deed.begins) r w
  /-- The wait is as long as the respite, up to 64 seconds, exactly if the number of seconds is a
  word, or if from the tenth try on there is no difference. -/
  kept_iff : ∀ number r w n, x.WaitsAfter number r w → r.status.MayPass → r.AsksRespite n →
    ∀ jitter, leastJitter ≤ jitter → jitter < jitterBound →
      (w.millis jitter = min (1000 * n) 64000 ↔ n < UInt64.size ∨ 10 ≤ number)
  /-- Of two respites the longer one gets no shorter wait, if its number of seconds is a word. -/
  mono : ∀ number r w n number' r' w' n', x.WaitsAfter number r w → r.status.MayPass →
    r.AsksRespite n → x.WaitsAfter number' r' w' → r'.status.MayPass → r'.AsksRespite n' →
    n ≤ n' → n' < UInt64.size → ∀ jitter jitter', w.millis jitter ≤ w'.millis jitter'

/-- The wait after a failure that may pass is the one that is due. -/
theorem Call.WaitsAfter.eq_due {number : Nat} {w : Wait} (h : x.WaitsAfter number r w)
    (hx : x.Of (c.sendWithRetry request session)) (hpass : r.status.MayPass) :
    w = .due (Client.retryAfter? r) number := by
  obtain ⟨ds, rest, hdeeds, rfl⟩ := h
  rcases Call.Of.after_replied 0 hx hdeeds hpass with ⟨hend, -⟩ | ⟨rest', hrest⟩
  · cases hend
  · rw [List.cons.injEq, Deed.waited.injEq, Nat.zero_add] at hrest
    exact hrest.1

/-- **Respites are kept, as far as their numbers of seconds are words.** However a request is sent
with tries, and whatever the backend replies. -/
theorem respite_kept_iff (hx : x.Of (c.sendWithRetry request session)) :
    x.KeepsRespites c.maxRetries where
  bounded w _ jitter := w.millis_le jitter
  waits := by
    intro ds r es hdeeds hpass hbody htries
    rcases Call.Of.after_replied 0 hx hdeeds hpass with
      ⟨-, hnone | hlast⟩ | ⟨rest, rfl⟩
    · rw [hnone] at hbody
      cases hbody
    · omega
    · exact ⟨_, ds, rest, hdeeds, rfl⟩
  kept_iff := by
    intro number r w n hw hpass hasks jitter hleast hbound
    rw [hw.eq_due hx hpass]
    exact Wait.millis_due_iff hasks hleast hbound number
  mono := by
    intro number r w n number' r' w' n' hw hpass hasks hw' hpass' hasks' hle hword jitter jitter'
    rw [hw.eq_due hx hpass, hw'.eq_due hx hpass', retryAfter?_of_asks hasks,
      retryAfter?_of_asks hasks', if_pos hword, if_pos (hle.trans_lt hword)]
    exact min_le_min_right _ (Nat.mul_le_mul_left 1000 hle)

/-! ## A respite of too many seconds -/

/-- The gateway is busy and asks for a respite. -/
def busyFor (seconds : String) : Response :=
  ⟨⟨429⟩, [("retry-after", octets seconds)], some []⟩

/-- First the gateway asks for the least number of seconds that is no word, then for 64 seconds, and
then it does what is asked of it. -/
def overlongCalls : Nat → Call
  | 1 => gatewayCall (.answered (busyFor "18446744073709551616"))
      (.error (.transient ⟨some ⟨429⟩, none, ""⟩))
  | 2 => gatewayCall (.answered (busyFor " 64\t"))
      (.error (.transient ⟨some ⟨429⟩, some 64, ""⟩))
  | _ => gatewayCall (.answered ⟨⟨200⟩, [], some []⟩) (.ok ⟨⟨200⟩, ""⟩)

/-- The call that is made of them. -/
def overlongCall : Call :=
  joined overlongCalls 1 3

/-- Each of them is a call without further tries. -/
theorem overlongCalls_of_send (i : Nat) :
    (overlongCalls i).Of (gatewayClient.send gatewayRequest none) := by
  unfold overlongCalls
  split
  · exact Call.of_settled _ _ rfl
  · exact Call.of_settled _ _ rfl
  · exact Call.of_settled _ _ rfl

/-- Together they are a call with tries. -/
theorem overlongCall_of_sendWithRetry :
    overlongCall.Of (gatewayClient.sendWithRetry gatewayRequest none) := by
  have hover : Over overlongCalls 4 1 3 := by
    rw [over_succ ⟨_, rfl⟩, over_succ ⟨_, rfl⟩, over_of_not_fails]
    rintro ⟨t, ht⟩
    cases ht
  exact Tried.of_retrying ⟨fun i _ _ => overlongCalls_of_send i, hover, rfl⟩

/-- The first reply asks for more seconds than a word can count. -/
theorem asks_overlong : (busyFor "18446744073709551616").AsksRespite 18446744073709551616 :=
  ⟨[], octets "18446744073709551616", [], rfl, by simp, by decide, by decide +kernel,
    by decide +kernel⟩

/-- The second one asks for 64 seconds, between white space. -/
theorem asks_longest : (busyFor " 64\t").AsksRespite 64 :=
  ⟨[0x20], octets "64", [0x09], by decide +kernel, by simp, by decide, by decide +kernel,
    by decide +kernel⟩

/-- What is done in each of them before there is a reply. -/
def untilReplied : List Deed :=
  [.asked (.valid .epoch), .told (.ok (.ofApiKey "sk-1")), .posted gatewayDraft]

/-- The waits that come after these replies. -/
theorem overlongCall_waitsAfter :
    overlongCall.WaitsAfter 1 (busyFor "18446744073709551616") (.backoff 1) ∧
      overlongCall.WaitsAfter 2 (busyFor " 64\t") (.requested 64) := by
  constructor
  · exact ⟨untilReplied, _, rfl, rfl⟩
  · exact ⟨untilReplied ++ .replied (.answered (busyFor "18446744073709551616")) ::
      .waited (.backoff 1) :: untilReplied, _, rfl, rfl⟩

/-- The respite of 64 seconds is kept, and the one that is longer gets 200 milliseconds. -/
theorem respite_kept_iff_overlong :
    overlongCall.Of (gatewayClient.sendWithRetry gatewayRequest none) ∧
      overlongCall.WaitsAfter 1 (busyFor "18446744073709551616") (.backoff 1) ∧
      (busyFor "18446744073709551616").AsksRespite 18446744073709551616 ∧
      (Wait.backoff 1).millis 1 = 200 ∧
      (Wait.backoff 1).millis 1 ≠ min (1000 * 18446744073709551616) 64000 ∧
      overlongCall.WaitsAfter 2 (busyFor " 64\t") (.requested 64) ∧
      (busyFor " 64\t").AsksRespite 64 ∧
      (Wait.requested 64).millis 1 = min (1000 * 64) 64000 := by
  have hkept := respite_kept_iff overlongCall_of_sendWithRetry
  obtain ⟨hoverlong, hlongest⟩ := overlongCall_waitsAfter
  have hleast : leastJitter ≤ 1 := by decide +kernel
  have hbound : 1 < jitterBound := by decide +kernel
  have hiff := hkept.kept_iff _ _ _ _ hoverlong (.inr (.inl rfl)) asks_overlong 1 hleast hbound
  have hiff' := hkept.kept_iff _ _ _ _ hlongest (.inr (.inl rfl)) asks_longest 1 hleast hbound
  refine ⟨overlongCall_of_sendWithRetry, hoverlong, asks_overlong, by decide +kernel, ?_, hlongest,
    asks_longest, hiff'.mpr (.inl (by decide))⟩
  exact mt hiff.mp (by decide)

/-- **A respite is not always kept**: a number of seconds that is no word counts as none. -/
theorem not_every_respite_kept :
    ¬ ∀ (c : Client) request session (x : Call) number r w n,
      x.Of (c.sendWithRetry request session) → x.WaitsAfter number r w → r.status.MayPass →
      r.AsksRespite n → ∀ jitter, leastJitter ≤ jitter → jitter < jitterBound →
        w.millis jitter = min (1000 * n) 64000 := by
  intro h
  have heq := h _ _ _ overlongCall _ _ _ _ overlongCall_of_sendWithRetry overlongCall_waitsAfter.1
    (.inr (.inl rfl)) asks_overlong 1 (by decide +kernel) (by decide +kernel)
  have hshort : (Wait.backoff 1).millis 1 = 200 := by decide +kernel
  rw [hshort] at heq
  cases heq

end Client

end Courier
