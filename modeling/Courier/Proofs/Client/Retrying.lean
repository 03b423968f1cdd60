import Courier.Proofs.Client.Calls
import Courier.Proofs.Client.Waits
import Mathlib.Data.List.Basic

/-!
# Starting over, a bounded number of times

`Client.sendWithRetry` makes one call after the other, with a wait in between, until one does not
fail for a while or there are no tries left. A `Call` is a way through a dispatch to its end, so
what the others answer is all in it, whatever they answer.

**`retry_bounded`** says what comes of it (`Retried`). A call with tries is the calls up to number
`k`, one after the other, with one wait after each of them but the last, and it ends as number `k`
does. `k` is the number of the first call that does not fail for a while, or the last number there
is (`Over`). Every such call can happen, whatever the single calls are, and there are no others.
-/

namespace Courier.Client

open Courier.Auth Courier.Http Courier.Time

/-! ## Single tries -/

/-- A call fails in a way that may go away. -/
def Call.Fails (x : Call) : Prop :=
  ∃ t, x.result = .error (.transient t)

/-- For how many seconds the backend wants to be left alone after a call. -/
def Call.retryAfter? (x : Call) : Option Nat :=
  match x.result with
  | .error e => e.retryAfter?
  | .ok _ => none

/-- The wait after a call with a number. -/
def Call.wait (x : Call) (number : Nat) : Wait :=
  .due x.retryAfter? number

variable {once : Dispatch} {retries first : Nat} {x : Call} {c : Client} {request : Wire.Request}
  {session : Option String}

/-- What there is to do after a try that is not the last one. -/
def afterTry (once : Dispatch) (retries attempt : Nat) : Except Error Payload → Dispatch
  | .ok payload => .done (.ok payload)
  | .error e =>
    if e.isRetryable then .wait (.after e attempt) (retrying once retries (attempt + 1))
    else .done (.error e)

/-- With a try left, what comes after a try depends on it. -/
theorem retrying_succ (once : Dispatch) (retries attempt : Nat) :
    retrying once (retries + 1) attempt = once.andThen (afterTry once retries attempt) := rfl

/-- Nothing is done after a call that does not fail, or fails for good. -/
theorem afterTry_of_not_fails (h : ¬ x.Fails) (attempt : Nat) :
    afterTry once retries attempt x.result = .done x.result := by
  unfold Call.Fails at h
  cases hr : x.result with
  | ok payload => rfl
  | error e =>
    cases e with
    | transient t => exact absurd ⟨t, hr⟩ h
    | _ => rfl

/-- There is a wait after a call that fails, and then it starts over. -/
theorem afterTry_of_fails (h : x.Fails) (attempt : Nat) :
    afterTry once retries attempt x.result =
      .wait (x.wait attempt) (retrying once retries (attempt + 1)) := by
  obtain ⟨t, ht⟩ := h
  have hwait : x.wait attempt = .after (.transient t) attempt := by
    unfold Call.wait Call.retryAfter?
    rw [Wait.after_eq, ht]
  rw [ht, hwait]
  rfl

/-- **One step**: with tries left, a call is the only one, or it fails and others follow. -/
theorem Call.of_retrying_succ_iff :
    x.Of (retrying once (retries + 1) first) ↔
      x.Of once ∧ ¬ x.Fails ∨
      ∃ y z : Call, y.Of once ∧ y.Fails ∧ z.Of (retrying once retries (first + 1)) ∧
        x = z.after (y.deeds ++ [.waited (y.wait first)]) := by
  rw [retrying_succ, Call.of_andThen_iff]
  constructor
  · rintro ⟨y, z, hy, hz, rfl⟩
    by_cases hfails : y.Fails
    · rw [afterTry_of_fails hfails, Call.of_wait_iff] at hz
      obtain ⟨z, hz, rfl⟩ := hz
      exact .inr ⟨y, z, hy, hfails, hz, by simp [Call.after]⟩
    · rw [afterTry_of_not_fails hfails, Call.of_done_iff] at hz
      obtain rfl := hz
      simpa [Call.after] using Or.inl ⟨hy, hfails⟩
  · rintro (⟨hx, hfails⟩ | ⟨y, z, hy, hfails, hz, rfl⟩)
    · refine ⟨x, ⟨[], x.result⟩, hx, ?_, by simp [Call.after]⟩
      rw [afterTry_of_not_fails hfails, Call.of_done_iff]
    · refine ⟨y, z.after [.waited (y.wait first)], hy, ?_, by simp [Call.after]⟩
      rw [afterTry_of_fails hfails, Call.of_wait_iff]
      exact ⟨z, hz, rfl⟩

/-! ## All tries -/

/-- Calls with the numbers from `first` on are over with number `last`: it is the first one that
does not fail, or there are no tries left. -/
structure Over (calls : Nat → Call) (retries first last : Nat) : Prop where
  first_le : first ≤ last
  last_le : last ≤ first + retries
  /-- Those before it fail. -/
  fails : ∀ i, first ≤ i → i < last → (calls i).Fails
  /-- If it fails, too, there are no tries left. -/
  exhausted : (calls last).Fails → last = first + retries

/-- The calls with the numbers from `first` to `last`, with a wait after each of them but the last
one, which has the result. -/
def joined (calls : Nat → Call) (first last : Nat) : Call :=
  (calls last).after ((List.range' first (last - first)).flatMap fun i =>
    (calls i).deeds ++ [.waited ((calls i).wait i)])

variable {calls : Nat → Call} {last : Nat}

/-- A first call that does not fail is the last one. -/
theorem over_of_not_fails (h : ¬ (calls first).Fails) :
    Over calls retries first last ↔ last = first := by
  constructor
  · intro hover
    by_contra hne
    exact h (hover.fails first le_rfl (lt_of_le_of_ne hover.first_le (Ne.symm hne)))
  · rintro rfl
    exact ⟨le_rfl, Nat.le_add_right _ _, fun i hi hlt => absurd hlt (Nat.not_lt.mpr hi),
      fun hfails => absurd hfails h⟩

/-- Without further tries the first call is the last one. -/
theorem over_zero : Over calls 0 first last ↔ last = first := by
  constructor
  · intro hover
    exact le_antisymm hover.last_le hover.first_le
  · rintro rfl
    exact ⟨le_rfl, le_rfl, fun i hi hlt => absurd hlt (Nat.not_lt.mpr hi), fun _ => rfl⟩

/-- After a call that fails there is one try less. -/
theorem over_succ (h : (calls first).Fails) :
    Over calls (retries + 1) first last ↔ Over calls retries (first + 1) last := by
  constructor
  · rintro ⟨hfirst, hlast, hfails, hexhausted⟩
    have hne : last ≠ first := by
      rintro rfl
      have heq := hexhausted h
      omega
    exact ⟨by omega, by omega, fun i hi => hfails i (by omega),
      fun hf => by rw [hexhausted hf]; omega⟩
  · rintro ⟨hfirst, hlast, hfails, hexhausted⟩
    refine ⟨by omega, by omega, fun i hi hlt => ?_, fun hf => by rw [hexhausted hf]; omega⟩
    rcases Nat.eq_or_lt_of_le hi with rfl | hi
    · exact h
    · exact hfails i hi hlt

/-- Calls are over with exactly one number. -/
theorem existsUnique_over (calls : Nat → Call) (retries first : Nat) :
    ∃! last, Over calls retries first last := by
  induction retries generalizing first with
  | zero => exact ⟨first, over_zero.mpr rfl, fun _ => over_zero.mp⟩
  | succ retries ih =>
    by_cases h : (calls first).Fails
    · simpa only [over_succ h] using ih (first + 1)
    · exact ⟨first, (over_of_not_fails h).mpr rfl, fun _ => (over_of_not_fails h).mp⟩

/-- One call joined is that call. -/
theorem joined_self (calls : Nat → Call) (first : Nat) :
    joined calls first first = calls first := by
  simp [joined, Call.after]

/-- Of several calls the first comes before the others, with a wait behind it. -/
theorem joined_of_lt (h : first < last) :
    joined calls first last = (joined calls (first + 1) last).after
      ((calls first).deeds ++ [.waited ((calls first).wait first)]) := by
  obtain ⟨n, rfl⟩ := Nat.exists_eq_add_of_lt h
  have hn : first + n + 1 - first = n + 1 := by omega
  have hn' : first + n + 1 - (first + 1) = n := by omega
  simp [joined, Call.after, hn, hn', List.range'_succ]

/-- The call `x` of a dispatch that is started over is made of calls of the dispatch: those with the
numbers from `first` on, until they are over. -/
structure Tried (once : Dispatch) (retries first : Nat) (calls : Nat → Call) (last : Nat)
    (x : Call) : Prop where
  of_once : ∀ i, first ≤ i → i ≤ last → (calls i).Of once
  isOver : Over calls retries first last
  eq_joined : x = joined calls first last

/-- One call can be all. -/
theorem Call.Of.tried (h : x.Of once) (hx : calls first = x)
    (hover : Over calls retries first first) : Tried once retries first calls first x where
  of_once := by
    intro i hi hle
    rw [le_antisymm hle hi, hx]
    exact h
  isOver := hover
  eq_joined := by rw [joined_self, hx]

/-- A call that fails comes before others. -/
theorem Tried.cons {z : Call} (h : Tried once retries (first + 1) calls last z)
    (hfirst : (calls first).Of once) (hfails : (calls first).Fails) :
    Tried once (retries + 1) first calls last
      (z.after ((calls first).deeds ++ [.waited ((calls first).wait first)])) where
  of_once := by
    intro i hi hle
    rcases Nat.eq_or_lt_of_le hi with rfl | hi
    · exact hfirst
    · exact h.of_once i hi hle
  isOver := (over_succ hfails).mpr h.isOver
  eq_joined := by rw [joined_of_lt h.isOver.first_le, h.eq_joined]

/-- Calls that are started over are made of calls, whatever the calls before those were. -/
theorem Call.Of.exists_tried (h : x.Of (retrying once retries first)) (before : Nat → Call) :
    ∃ calls last, (∀ i < first, calls i = before i) ∧ Tried once retries first calls last x := by
  -- A call that has been made becomes one of those before the others.
  induction retries generalizing first x before with
  | zero =>
    exact ⟨Function.update before first x, first, fun i hi => Function.update_of_ne hi.ne _ _,
      h.tried (Function.update_self ..) (over_zero.mpr rfl)⟩
  | succ retries ih =>
    rcases Call.of_retrying_succ_iff.mp h with ⟨hx, hfails⟩ | ⟨y, z, hy, hfails, hz, rfl⟩
    · refine ⟨Function.update before first x, first, fun i hi => Function.update_of_ne hi.ne _ _,
        hx.tried (Function.update_self ..) ((over_of_not_fails ?_).mpr rfl)⟩
      rwa [Function.update_self]
    · obtain ⟨calls, last, hbefore, htried⟩ := ih hz (Function.update before first y)
      obtain rfl : calls first = y :=
        (hbefore first (Nat.lt_succ_self first)).trans (Function.update_self ..)
      refine ⟨calls, last, fun i hi => ?_, htried.cons hy hfails⟩
      rw [hbefore i (Nat.lt_succ_of_lt hi), Function.update_of_ne hi.ne]

/-- **Calls can be started over this way**, whatever they are. -/
theorem Tried.of_retrying (h : Tried once retries first calls last x) :
    x.Of (retrying once retries first) := by
  obtain ⟨hcalls, hover, rfl⟩ := h
  induction retries generalizing first with
  | zero =>
    obtain rfl := over_zero.mp hover
    rw [joined_self]
    exact hcalls _ le_rfl le_rfl
  | succ retries ih =>
    rw [Call.of_retrying_succ_iff]
    have hfirst := hcalls first le_rfl hover.first_le
    by_cases hfails : (calls first).Fails
    · have hrest := (over_succ hfails).mp hover
      exact .inr ⟨calls first, joined calls (first + 1) last, hfirst, hfails,
        ih (fun i hi => hcalls i (Nat.le_of_succ_le hi)) hrest, joined_of_lt hrest.first_le⟩
    · obtain rfl := (over_of_not_fails hfails).mp hover
      rw [joined_self]
      exact .inl ⟨hfirst, hfails⟩

/-! ## Every request -/

/-- If each call sends once and does not wait, joined calls send as often as there are calls, and
the only waits are those in between. -/
theorem joined_once (n : Nat)
    (honce : ∀ i, first ≤ i → i ≤ first + n → (calls i).sends = 1 ∧ (calls i).waits = []) :
    (joined calls first (first + n)).sends = n + 1 ∧
      (joined calls first (first + n)).waits =
        (List.range' first n).map fun i => (calls i).wait i := by
  obtain ⟨hsends, hwaits⟩ := honce first le_rfl (Nat.le_add_right _ _)
  induction n generalizing first with
  | zero => simp [joined_self, hsends, hwaits]
  | succ n ih =>
    obtain ⟨hsends', hwaits'⟩ := honce (first + 1) (Nat.le_succ _) (by omega)
    have hrest := ih (fun i (hi : first + 1 ≤ i) hle => honce i (by omega) (by omega))
      hsends' hwaits'
    have hlast : first + (n + 1) = first + 1 + n := by omega
    unfold Call.sends at hsends
    unfold Call.waits at hwaits
    rw [hlast, joined_of_lt (by omega), Call.sends_after, Call.waits_after, hrest.1, hrest.2]
    constructor
    · simp [hsends, Deed.begins]
      omega
    · simp [hwaits, Deed.wait?, List.range'_succ]

/-- The call `x`, in which a request is sent with tries, is made of the first `k` of some calls. -/
structure Retried (c : Client) (request : Wire.Request) (session : Option String)
    (calls : Nat → Call) (k : Nat) (x : Call) : Prop where
  /-- The calls are those in which the request is sent, and they are over with number `k`. -/
  tried : Tried (c.send request session) c.maxRetries 1 calls k x
  /-- The result is that of the last one. -/
  result_eq : x.result = (calls k).result
  /-- The request is sent `k` times. -/
  sends_eq : x.sends = k
  /-- There is one wait less. -/
  length_waits : x.waits.length = k - 1
  /-- Wait number `i` is as long as is wanted after call number `i`. -/
  lasts : ∀ i, 1 ≤ i → i < k →
    ∃ w, x.waits[i - 1]? = some w ∧ w.Lasts (calls i).retryAfter? i
  /-- The numbers are words. -/
  lt_size : k < UInt64.size

/-- What is tried in a row has the waits that are due. -/
theorem Tried.retried (h : Tried (c.send request session) c.maxRetries 1 calls last x)
    (hmax : c.maxRetries + 1 < UInt64.size) : Retried c request session calls last x := by
  have hpos := h.isOver.first_le
  have hle := h.isOver.last_le
  obtain ⟨n, rfl⟩ := Nat.exists_eq_add_of_le hpos
  obtain ⟨hsends, hwaits⟩ := joined_once n fun i hi hle => (h.of_once i hi hle).sends_eq
  rw [← h.eq_joined] at hsends hwaits
  constructor
  case tried => exact h
  case result_eq => rw [h.eq_joined]; rfl
  case sends_eq => omega
  case length_waits => simp [hwaits]
  case lasts =>
    intro i hi hlt
    refine ⟨(calls i).wait i, ?_, Wait.lasts_due _ i⟩
    have hindex : 1 + (i - 1) = i := by omega
    simp [hwaits, List.getElem?_range' (show i - 1 < n by omega), hindex]
  case lt_size => omega

/-- **Every call with tries comes of some calls in a row.** -/
theorem Call.Of.exists_retried (h : x.Of (c.sendWithRetry request session))
    (hmax : c.maxRetries + 1 < UInt64.size) :
    ∃ calls k, Retried c request session calls k x := by
  obtain ⟨calls, k, -, htried⟩ := h.exists_tried fun _ => x
  exact ⟨calls, k, htried.retried hmax⟩

/-- **Requests are tried again a bounded number of times.** However a request is sent with tries, it
is sent in calls of this kind; whatever these are, there is exactly one number with which they are
over; and the waits are computed without an overflow, whatever the number of the try. -/
theorem retry_bounded (c : Client) (request : Wire.Request) (session : Option String)
    (hmax : c.maxRetries + 1 < UInt64.size) :
    (∀ x : Call, x.Of (c.sendWithRetry request session) →
      ∃ calls k, Retried c request session calls k x) ∧
    (∀ calls : Nat → Call, (∀ i, 1 ≤ i → (calls i).Of (c.send request session)) →
      ∃ k x, x.Of (c.sendWithRetry request session) ∧ Retried c request session calls k x ∧
        ∀ k' x', Retried c request session calls k' x' → k' = k ∧ x' = x) ∧
    ∀ attempt : UInt64,
      (baseWait? attempt).map UInt64.toNat =
        some (200 * Nat.pow 2 (min (attempt.toNat - 1) 16)) ∧
      (Wait.backoff attempt.toNat).Lasts none attempt.toNat := by
  refine ⟨fun x hx => hx.exists_retried hmax, ?_,
    fun attempt => ⟨baseWait?_eq attempt, Wait.lasts_due none _⟩⟩
  intro calls hcalls
  obtain ⟨k, hover, hunique⟩ := existsUnique_over calls c.maxRetries 1
  have htried : Tried (c.send request session) c.maxRetries 1 calls k (joined calls 1 k) :=
    ⟨fun i hi _ => hcalls i hi, hover, rfl⟩
  refine ⟨k, joined calls 1 k, htried.of_retrying, htried.retried hmax, ?_⟩
  intro k' x' h
  obtain rfl := hunique k' h.tried.isOver
  exact ⟨rfl, h.tried.eq_joined⟩

/-- So it is for every caller who has a result, whatever has happened to the manager meanwhile and
whatever the backend has replied, as long as nobody else asks in the name of the caller. -/
theorem Errand.exists_retried (m : Manager) (hmax : c.maxRetries + 1 < UInt64.size) {k : Caller}
    {os : List Occurrence} (halone : ∀ q, .aside (.demand k q) ∉ os) {r : Except Error Payload}
    (hr : ((Errand.start m (c.sendWithRetry request session)).run k os).stage =
      .about (.done r)) :
    ∃ calls n, Retried c request session calls n
      ⟨((Errand.start m (c.sendWithRetry request session)).run k os).deeds, r⟩ :=
  ((Errand.sound_run m _ halone).call hr).exists_retried hmax

/-! ## A gateway that is busy -/

/-- A call of the gateway with an API key. -/
def gatewayCall (r : Reply) (result : Except Error Payload) : Call where
  deeds := [.asked (.valid .epoch), .told (.ok (.ofApiKey "sk-1")), .posted gatewayDraft,
    .replied r]
  result := result

/-- First the gateway does not answer, then it wants to be left alone for three seconds, and then
it does what is asked of it. -/
def busyCalls : Nat → Call
  | 1 => gatewayCall (.timedOut gateway.endpointUrl)
      (.error (.ofExchange (.unanswered gateway.endpointUrl)))
  | 2 => gatewayCall (.answered ⟨⟨429⟩, [("retry-after", [0x33])], some []⟩)
      (.error (.transient ⟨some ⟨429⟩, some 3, ""⟩))
  | _ => gatewayCall (.answered ⟨⟨200⟩, [], some []⟩) (.ok ⟨⟨200⟩, ""⟩)

/-- Each of them is a call without further tries. -/
theorem busyCalls_of_send (i : Nat) :
    (busyCalls i).Of (gatewayClient.send gatewayRequest none) := by
  unfold busyCalls
  split
  · exact Call.of_settled _ _ rfl
  · exact Call.of_settled _ _ rfl
  · exact Call.of_settled _ _ rfl

/-- The request is sent three times, after waits of 200 milliseconds and of three seconds. -/
theorem retry_bounded_busy :
    gatewayClient.maxRetries + 1 < UInt64.size ∧
      (∀ i, 1 ≤ i → (busyCalls i).Of (gatewayClient.send gatewayRequest none)) ∧
      ∃ x : Call, x.Of (gatewayClient.sendWithRetry gatewayRequest none) ∧ x.sends = 3 ∧
        x.result = .ok ⟨⟨200⟩, ""⟩ ∧ (x.waits.map fun w => w.millis 1) = [200, 3000] := by
  have hmax : gatewayClient.maxRetries + 1 < UInt64.size := by decide
  have hcalls : ∀ i, 1 ≤ i → (busyCalls i).Of (gatewayClient.send gatewayRequest none) :=
    fun i _ => busyCalls_of_send i
  obtain ⟨k, x, hx, h, -⟩ :=
    (retry_bounded gatewayClient gatewayRequest none hmax).2.1 busyCalls hcalls
  have hsecond : Over busyCalls 3 2 k := (over_succ ⟨_, rfl⟩).mp h.tried.isOver
  have hthird : Over busyCalls 2 3 k := (over_succ ⟨_, rfl⟩).mp hsecond
  obtain rfl : k = 3 := (over_of_not_fails (fun ⟨t, ht⟩ => by cases ht)).mp hthird
  refine ⟨hmax, hcalls, x, hx, h.sends_eq, h.result_eq, ?_⟩
  obtain ⟨w, hw, hlasts⟩ := h.lasts 1 (by decide) (by decide)
  obtain ⟨w', hw', hlasts'⟩ := h.lasts 2 (by decide) (by decide)
  obtain ⟨v, v', hwaits⟩ := List.length_eq_two.mp h.length_waits
  rw [hwaits] at hw hw'
  obtain rfl : v = w := Option.some.inj hw
  obtain rfl : v' = w' := Option.some.inj hw'
  obtain ⟨ms, hms, -, hmillis⟩ := hlasts.computed rfl 1 (by decide +kernel) (by decide +kernel)
  obtain rfl : 200 = ms := Int.ofNat.inj (Eq.trans (by decide +kernel) hms)
  rw [hwaits, List.map_cons, List.map_cons, hmillis, hlasts'.requested 3 rfl]
  rfl

end Courier.Client
