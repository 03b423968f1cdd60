import Courier.Proofs.Json.Texts

/-!
# Numbers are scanned up to their end

A number that the printer has written is a JSON number: a `Written`, with a minus sign or none, the
digits before the point, those after it and an exponent. An infinity or NaN is written as something
else and is left out here.

* `Number.exists_written`: every other number is written in that way. The digits before the point
  do not start with a zero, unless it is the only one, because `shortest` gives no zero in front.
* **`Written.scan_chars`**: what is written in that way is scanned up to its end, if what follows
  does not go on with it (`Ends`).
-/

namespace Courier.Json

open Courier.Numeric Courier.Text

/-! ## Digits -/

/-- There are digits, and nothing else. -/
structure Digits (ds : List Char) : Prop where
  ne_nil : ds ≠ []
  isDigit : ∀ c ∈ ds, c.isDigit = true

/-- The digits of a number are digits without zeros in front. -/
theorem digits_digits (n : Nat) : Digits (digits n) :=
  ⟨digits_ne_nil n, fun _ => isDigit_of_mem_digits⟩

/-- So is zero, which is one digit. -/
theorem Digits.zero : Digits ['0'] :=
  ⟨by simp, by simp⟩

/-- Digits with others behind them. -/
theorem Digits.append {ds es : List Char} (h : Digits ds) (hes : ∀ c ∈ es, c.isDigit = true) :
    Digits (ds ++ es) where
  ne_nil := List.append_ne_nil_of_left_ne_nil h.ne_nil es
  isDigit c hc := (List.mem_append.mp hc).elim (h.isDigit c) (hes c)

/-- Zeros in a row are digits. -/
theorem isDigit_of_mem_zeros {k : Nat} {c : Char} (h : c ∈ List.replicate k '0') :
    c.isDigit = true := by
  rw [(List.mem_replicate.mp h).2]
  rfl

/-- Zero has one digit. -/
theorem digits_zero : digits 0 = ['0'] := by
  rw [digits, if_pos (by decide)]
  rfl

/-- Only zero is written with a zero in front. -/
theorem eq_zero_of_head?_digits {n : Nat} (h : (digits n).head? = some '0') : n = 0 := by
  fun_induction digits n with
  | case1 n hn =>
    have hvalue := congrArg digitValue (Option.some.inj h)
    rw [digitValue_digitChar hn] at hvalue
    exact hvalue
  | case2 n hn ih =>
    obtain ⟨c, cs, hcs⟩ := List.exists_cons_of_ne_nil (digits_ne_nil (n / 10))
    have hzero : n / 10 = 0 := ih (by simpa [hcs] using h)
    omega

/-- Digits are the characters from 0x30 to 0x39. -/
theorem toNat_of_isDigit {c : Char} (h : c.isDigit = true) :
    0x30 ≤ c.toNat ∧ c.toNat ≤ 0x39 := by
  simpa [Char.isDigit, UInt32.le_iff_toNat_le] using h

/-- A digit is one octet. -/
theorem octetsOf_cons_digit {c : Char} (h : c.isDigit = true) (cs : List Char) :
    octetsOf (c :: cs) = UInt8.ofNat c.toNat :: octetsOf cs := by
  obtain ⟨-, hle⟩ := toNat_of_isDigit h
  have hone : String.utf8EncodeChar c = [UInt8.ofNat c.toNat] := by
    have hascii : c.val.toNat ≤ 0x7F := Nat.le_trans hle (by decide)
    rw [String.utf8EncodeChar, if_pos hascii]
    rfl
  rw [octetsOf, List.flatMap_cons, hone]
  rfl

/-- A digit is one octet. -/
theorem toNat_octet {c : Char} (h : c.isDigit = true) :
    (UInt8.ofNat c.toNat).toNat = c.toNat := by
  obtain ⟨-, hle⟩ := toNat_of_isDigit h
  exact Nat.mod_eq_of_lt (by omega)

/-- The octet of a digit is that of a digit. -/
theorem isDigit_octet {c : Char} (h : c.isDigit = true) :
    isDigit (UInt8.ofNat c.toNat) = true := by
  simpa [isDigit, toNat_octet h] using toNat_of_isDigit h

/-- What follows some digits does not go on with them. -/
def Undigited (rest : List UInt8) : Prop :=
  ∀ b ∈ rest.head?, isDigit b = false

/-- Digits are taken up to their end. -/
theorem digitRun_octetsOf {ds : List Char} (h : ∀ c ∈ ds, c.isDigit = true) {rest : List UInt8}
    (hrest : Undigited rest) :
    Numeral.digitRun (octetsOf ds ++ rest) = (ds.map digitValue, rest) := by
  induction ds with
  | nil =>
    cases rest with
    | nil => rfl
    | cons b rest =>
      have hb : isDigit b = false := hrest b rfl
      simp [Numeral.digitRun, hb]
  | cons c ds ih =>
    obtain ⟨hc, hds⟩ := List.forall_mem_cons.mp h
    have ih := ih hds
    rw [Numeral.digitRun, Prod.mk.injEq] at ih
    rw [octetsOf_cons_digit hc, List.cons_append, Numeral.digitRun,
      List.takeWhile_cons_of_pos (isDigit_octet hc), List.dropWhile_cons_of_pos (isDigit_octet hc),
      List.map_cons, ih.1, ih.2, toNat_octet hc]
    rfl

/-- A row of digits is run through to its end, where no digit follows. -/
theorem Digits.digitRun? {ds : List Char} (h : Digits ds) {rest : List UInt8}
    (hrest : Undigited rest) :
    Numeral.digitRun? (octetsOf ds ++ rest) = .ok (ds.map digitValue, rest) := by
  obtain ⟨c, cs, rfl⟩ := List.exists_cons_of_ne_nil h.ne_nil
  rw [Numeral.digitRun?, digitRun_octetsOf h.isDigit hrest]
  rfl

/-! ## What is written -/

/-- The part of a number after its point, point and all. -/
def fractionChars : Option (List Char) → List Char
  | some ds => '.' :: ds
  | none => []

/-- The exponent of a number. -/
def exponentChars : Option (Bool × List Char) → List Char
  | some (negative, ds) => 'e' :: (if negative then '-' else '+') :: ds
  | none => []

/-- A number as it is written. -/
structure Written where
  /-- It starts with a minus sign. -/
  negative : Bool
  /-- What stands before the point. -/
  whole : List Char
  /-- What stands after the point, if there is one. -/
  fraction : Option (List Char)
  /-- The exponent: whether it is negative, and its digits. -/
  exponent : Option (Bool × List Char)
  digits_whole : Digits whole
  leading : whole.head? = some '0' → whole = ['0']
  digits_fraction : ∀ ds ∈ fraction, Digits ds
  digits_exponent : ∀ e ∈ exponent, Digits e.2

namespace Written

/-- Its characters after the sign. -/
def unsigned (w : Written) : List Char :=
  w.whole ++ (fractionChars w.fraction ++ exponentChars w.exponent)

/-- Its characters. -/
def chars (w : Written) : List Char :=
  if w.negative then '-' :: w.unsigned else w.unsigned

/-- The numeral that is written. -/
def numeral (w : Written) : Numeral where
  negative := w.negative
  whole := w.whole.map digitValue
  fraction := w.fraction.map (List.map digitValue)
  exponent := w.exponent.map fun e => (e.1, e.2.map digitValue)

end Written

/-! ## Scanning it -/

/-- What follows a number does not go on with it. -/
def Ends (rest : List UInt8) : Prop :=
  ∀ b ∈ rest.head?,
    isDigit b = false ∧ isChar '.' b = false ∧ isChar 'e' b = false ∧ isChar 'E' b = false

/-- A number ends at the end of the text. -/
theorem Ends.nil : Ends [] := by
  simp [Ends]

/-- It ends before an octet that no number goes on with. -/
theorem Ends.cons {b : UInt8}
    (h : isDigit b = false ∧ isChar '.' b = false ∧ isChar 'e' b = false ∧ isChar 'E' b = false)
    (rest : List UInt8) : Ends (b :: rest) := by
  intro c hc
  rw [← Option.some.inj hc]
  exact h

/-- Where a number ends no digit follows. -/
theorem Ends.undigited {rest : List UInt8} (h : Ends rest) : Undigited rest :=
  fun b hb => (h b hb).1

variable {rest : List UInt8}

/-- An exponent does not start with a digit, and where there is none the number ends. -/
theorem undigited_exponent (e : Option (Bool × List Char)) (hrest : Ends rest) :
    Undigited (octetsOf (exponentChars e) ++ rest) := by
  cases e with
  | none => exact hrest.undigited
  | some e =>
    intro b hb
    rw [← Option.some.inj hb]
    rfl

/-- A fraction does not start with a digit, either. -/
theorem undigited_fraction (f : Option (List Char)) (hrest : Undigited rest) :
    Undigited (octetsOf (fractionChars f) ++ rest) := by
  cases f with
  | none => exact hrest
  | some ds =>
    intro b hb
    rw [← Option.some.inj hb]
    rfl

/-- The exponent is scanned up to its end. -/
theorem scanExponent_chars {e : Option (Bool × List Char)} (he : ∀ x ∈ e, Digits x.2)
    (hrest : Ends rest) :
    Numeral.scanExponent (octetsOf (exponentChars e) ++ rest) =
      .ok (e.map fun x => (x.1, x.2.map digitValue), rest) := by
  cases e with
  | none =>
    cases rest with
    | nil => rfl
    | cons b rest =>
      obtain ⟨-, -, hlower, hupper⟩ := hrest b rfl
      simp [exponentChars, Numeral.scanExponent, hlower, hupper]
  | some e =>
    obtain ⟨negative, ds⟩ := e
    have hrun := (he _ rfl).digitRun? hrest.undigited
    have hoctets : octetsOf (exponentChars (some (negative, ds))) =
        0x65 :: (if negative then 0x2D else 0x2B) :: octetsOf ds := by
      cases negative <;> rfl
    have hsign : Numeral.scanSign ((if negative then 0x2D else 0x2B) :: (octetsOf ds ++ rest)) =
        (negative, octetsOf ds ++ rest) := by
      cases negative <;> rfl
    have hmark : (isChar 'e' 0x65 || isChar 'E' 0x65) = true := rfl
    rw [hoctets, List.cons_append, List.cons_append, Numeral.scanExponent, if_pos hmark, hsign]
    simp only [hrun]
    rfl

/-- The part after the point is scanned up to its end. -/
theorem scanFraction_chars {f : Option (List Char)} (hf : ∀ ds ∈ f, Digits ds)
    (hrest : Undigited rest) (hpoint : ∀ b ∈ rest.head?, isChar '.' b = false) :
    Numeral.scanFraction (octetsOf (fractionChars f) ++ rest) =
      .ok (f.map (List.map digitValue), rest) := by
  cases f with
  | none =>
    cases rest with
    | nil => rfl
    | cons b rest =>
      have hb : isChar '.' b = false := hpoint b rfl
      simp [fractionChars, Numeral.scanFraction, hb]
  | some ds =>
    have hrun := (hf ds rfl).digitRun? hrest
    have hmark : isChar '.' 0x2E = true := rfl
    show Numeral.scanFraction (0x2E :: (octetsOf ds ++ rest)) = _
    rw [Numeral.scanFraction, if_pos hmark, hrun]
    rfl

/-- The digits before the point are scanned up to their end. -/
theorem scanWhole_chars {ds : List Char} (hds : Digits ds)
    (hleading : ds.head? = some '0' → ds = ['0']) (hrest : Undigited rest) :
    Numeral.scanWhole (octetsOf ds ++ rest) = .ok (ds.map digitValue, rest) := by
  have hrun := hds.digitRun? hrest
  rw [Numeral.scanWhole, hrun]
  split
  next d e ds' rest' heq =>
    exfalso
    obtain ⟨hvalues, -⟩ := Prod.mk.inj (Except.ok.inj heq)
    obtain ⟨c, cs, rfl⟩ := List.exists_cons_of_ne_nil hds.ne_nil
    obtain ⟨hvalue, hothers⟩ := List.cons.inj hvalues
    have hc : c = '0' := by
      obtain ⟨hlow, -⟩ := toNat_of_isDigit (hds.isDigit c List.mem_cons_self)
      have hcode : c.toNat - 0x30 = 0 := hvalue
      have heq : c.toNat = 0x30 := by omega
      exact Char.ext (UInt32.toNat_inj.mp heq)
    subst hc
    rw [(List.cons.inj (hleading rfl)).2] at hothers
    cases hothers
  next => rfl

namespace Written

variable (w : Written)

/-- **What is written after the sign is scanned** as the parts that it was written from. -/
theorem scanUnsigned_unsigned (hrest : Ends rest) :
    Numeral.scanUnsigned w.negative (octetsOf w.unsigned ++ rest) = .ok (w.numeral, rest) := by
  have hexponent := scanExponent_chars w.digits_exponent hrest
  have hundigited := undigited_exponent w.exponent hrest
  have hpoint : ∀ b ∈ (octetsOf (exponentChars w.exponent) ++ rest).head?,
      isChar '.' b = false := by
    cases w.exponent with
    | none => exact fun b hb => (hrest b hb).2.1
    | some e =>
      intro b hb
      rw [← Option.some.inj hb]
      rfl
  have hfraction := scanFraction_chars w.digits_fraction hundigited hpoint
  have hwhole := scanWhole_chars w.digits_whole w.leading
    (undigited_fraction w.fraction hundigited)
  rw [unsigned, octetsOf_append, octetsOf_append, List.append_assoc, List.append_assoc,
    Numeral.scanUnsigned, hwhole]
  simp only [bind, Except.bind, hfraction, hexponent]
  rfl

/-- A number starts with a minus sign or a digit. -/
theorem exists_octet :
    ∃ b bs, octetsOf w.chars = b :: bs ∧ (isChar '-' b || isDigit b) = true ∧
      isChar '-' b = w.negative := by
  unfold chars
  cases hsign : w.negative with
  | true => exact ⟨0x2D, octetsOf w.unsigned, rfl, rfl, rfl⟩
  | false =>
    obtain ⟨c, cs, hcs⟩ := List.exists_cons_of_ne_nil w.digits_whole.ne_nil
    have hc : c.isDigit = true := w.digits_whole.isDigit c (by simp [hcs])
    have hminus : isChar '-' (UInt8.ofNat c.toNat) = false := by
      have := toNat_of_isDigit hc
      simp only [isChar, toNat_octet hc, beq_eq_false_iff_ne, ne_eq, Char.reduceToNat]
      omega
    have hunsigned : w.unsigned = c :: (cs ++
        (fractionChars w.fraction ++ exponentChars w.exponent)) := by
      rw [unsigned, hcs]
      rfl
    refine ⟨UInt8.ofNat c.toNat, octetsOf (cs ++
      (fractionChars w.fraction ++ exponentChars w.exponent)), ?_, ?_, hminus⟩
    · rw [if_neg (by simp), hunsigned, octetsOf_cons_digit hc]
    · rw [isDigit_octet hc, Bool.or_true]

/-- **A number is scanned up to its end**, if what follows does not go on with it. -/
theorem scan_chars (hrest : Ends rest) :
    Numeral.scan (octetsOf w.chars ++ rest) = .ok (w.numeral, rest) := by
  have hscan := w.scanUnsigned_unsigned hrest
  cases hsign : w.negative with
  | true =>
    have hchars : octetsOf w.chars = 0x2D :: octetsOf w.unsigned := by
      rw [chars, if_pos hsign]
      rfl
    have hminus : isChar '-' 0x2D = true := rfl
    rw [hchars, List.cons_append, Numeral.scan, if_pos hminus, ← hsign, hscan]
  | false =>
    obtain ⟨b, bs, hoctets, -, hminus⟩ := w.exists_octet
    have hchars : w.chars = w.unsigned := by
      rw [chars, if_neg (by simp [hsign])]
    rw [hchars] at hoctets ⊢
    rw [hoctets, List.cons_append] at hscan ⊢
    rw [Numeral.scan, if_neg (by simp [hminus, hsign]), ← hsign, hscan]

end Written

/-! ## What the printer writes -/

/-- A number that is not zero is not zero without the zeros at its end. -/
theorem Scientific.trimmed_pos (x : Scientific) (h : 0 < x.significand) :
    0 < x.trimmed.significand := by
  fun_induction Scientific.trimmed x with
  | case1 x hx ih => exact ih (by simp only; omega)
  | case2 x hx => exact h

/-- Of two neighbours, the lower one is taken only if it is not zero. -/
theorem neighbour_pos {low d : Nat} {p q r : Prop} [Decidable p] [Decidable q] [Decidable r]
    (h : (if (low ≠ 0 ∧ p) ∧ q then if r then some low else some (low + 1)
      else if low ≠ 0 ∧ p then some low
      else if q then some (low + 1)
      else none) = some d) : 0 < d := by
  split at h
  next hin =>
    split at h
    next => exact Option.some.inj h ▸ Nat.pos_of_ne_zero hin.1.1
    next => exact Option.some.inj h ▸ Nat.succ_pos _
  next =>
    split at h
    next hin => exact Option.some.inj h ▸ Nat.pos_of_ne_zero hin.1
    next =>
      split at h
      next => exact Option.some.inj h ▸ Nat.succ_pos _
      next => cases h

/-- The neighbour of a number on a grid is not zero. -/
theorem gridPoint?_pos {significand scale d : Nat} {exponent : Int}
    (h : gridPoint? significand scale exponent = some d) : 0 < d := by
  unfold gridPoint? at h
  exact neighbour_pos h

/-- Zero has the exponent zero. -/
theorem shortest_exponent {significand scale : Nat}
    (h : (shortest significand scale).significand = 0) :
    (shortest significand scale).exponent = 0 := by
  unfold shortest at h ⊢
  split
  next => rfl
  next hne =>
    rw [if_neg hne] at h
    simp only at h ⊢
    generalize hfound : List.findSome? _ (List.range 17) = found at h ⊢
    cases found with
    | none =>
      rw [Option.getD_none, Scientific.trimmed, if_neg (by simp)]
    | some x =>
      obtain ⟨n, -, hn⟩ := List.exists_of_findSome?_eq_some hfound
      obtain ⟨d, hd, rfl⟩ := Option.map_eq_some_iff.mp hn
      exact absurd h (Nat.pos_iff_ne_zero.mp (Scientific.trimmed_pos _ (gridPoint?_pos hd)))

/-- The digits of a number, and the place of the first one: only zero starts with a zero, and then
it is the one before the point. -/
structure Leading (ds : List Char) (lead : Int) : Prop where
  places : Digits ds
  zero : ds.head? = some '0' → ds = ['0'] ∧ lead = 0

/-- The shortest digits of a number do not start with a zero. -/
theorem leading_shortest (significand scale : Nat) :
    let x := shortest significand scale
    Leading (digits x.significand) (x.exponent + (digits x.significand).length - 1) := by
  intro x
  refine ⟨digits_digits _, fun h => ?_⟩
  have hzero : x.significand = 0 := eq_zero_of_head?_digits h
  have hexponent : x.exponent = 0 := shortest_exponent hzero
  have hdigits : digits x.significand = ['0'] := by rw [hzero, digits_zero]
  rw [hdigits, hexponent]
  exact ⟨rfl, rfl⟩

variable {ds : List Char} {lead : Int}

/-- Digits with their point in place are a number. -/
theorem Leading.exists_positional (h : Leading ds lead) (negative : Bool) :
    ∃ w : Written, w.negative = negative ∧ w.unsigned = numberLayout.positional ds lead := by
  unfold Layout.positional
  split
  next =>
    refine ⟨⟨negative, ['0'], some (List.replicate ((-lead).toNat - 1) '0' ++ ds), none,
      Digits.zero, fun _ => rfl, ?_, by simp⟩, rfl, ?_⟩
    · rintro _ ⟨⟩
      exact ⟨by simp [h.places.ne_nil], fun c hc =>
        (List.mem_append.mp hc).elim isDigit_of_mem_zeros (h.places.isDigit c)⟩
    · simp [Written.unsigned, fractionChars, exponentChars]
  next hlead =>
    simp only
    split
    next hlength =>
      refine ⟨⟨negative, ds ++ List.replicate (lead.toNat + 1 - ds.length) '0', some ['0'], none,
        h.places.append fun _ => isDigit_of_mem_zeros, ?_, ?_, by simp⟩, rfl, ?_⟩
      · intro hhead
        obtain ⟨d, es, rfl⟩ := List.exists_cons_of_ne_nil h.places.ne_nil
        obtain ⟨heq, rfl⟩ := h.zero hhead
        rw [heq]
        rfl
      · rintro _ ⟨⟩
        exact Digits.zero
      · simp [Written.unsigned, fractionChars, exponentChars, numberLayout]
    next hlength =>
      refine ⟨⟨negative, ds.take (lead.toNat + 1), some (ds.drop (lead.toNat + 1)), none,
        ⟨?_, fun c hc => h.places.isDigit c (List.mem_of_mem_take hc)⟩, ?_, ?_, by simp⟩, rfl, ?_⟩
      · simp [h.places.ne_nil]
      · intro hhead
        rw [List.head?_take, if_neg (by omega)] at hhead
        rw [(h.zero hhead).1] at hlength
        exact absurd (by simp) hlength
      · rintro _ ⟨⟩
        exact ⟨by simp; omega, fun c hc => h.places.isDigit c (List.mem_of_mem_drop hc)⟩
      · simp [Written.unsigned, fractionChars, exponentChars]

/-- Digits with an exponent are a number, if they are not zero. -/
theorem Leading.exists_exponential (h : Leading ds lead) (hlead : lead ≠ 0) (negative : Bool) :
    ∃ w : Written, w.negative = negative ∧ w.unsigned = numberLayout.exponential ds lead := by
  obtain ⟨d, es, rfl⟩ := List.exists_cons_of_ne_nil h.places.ne_nil
  obtain ⟨hd, hes⟩ := List.forall_mem_cons.mp h.places.isDigit
  have hone : Digits [d] := ⟨by simp, by simpa using hd⟩
  have hleading : [d].head? = some '0' → [d] = ['0'] := by
    intro hhead
    exact absurd (h.zero hhead).2 hlead
  have hexponent : ∀ e ∈ some (decide (lead < 0), digits lead.natAbs), Digits e.2 := by
    rintro _ ⟨⟩
    exact digits_digits _
  unfold Layout.exponential
  cases es with
  | nil =>
    refine ⟨⟨negative, [d], none, some (decide (lead < 0), digits lead.natAbs), hone, hleading,
      by simp, hexponent⟩, rfl, ?_⟩
    by_cases hneg : lead < 0 <;>
      simp [Written.unsigned, fractionChars, exponentChars, numberLayout, hneg]
  | cons e es =>
    refine ⟨⟨negative, [d], some (e :: es), some (decide (lead < 0), digits lead.natAbs), hone,
      hleading, ?_, hexponent⟩, rfl, ?_⟩
    · rintro _ ⟨⟩
      exact ⟨by simp, hes⟩
    · by_cases hneg : lead < 0 <;>
        simp [Written.unsigned, fractionChars, exponentChars, numberLayout, hneg]

/-- Digits are a number, however they are set. -/
theorem Leading.exists_body (h : Leading ds lead) (negative : Bool) :
    ∃ w : Written, w.negative = negative ∧
      w.unsigned =
        if numberLayout.lowest ≤ lead ∧ lead ≤ numberLayout.highest then
          numberLayout.positional ds lead
        else numberLayout.exponential ds lead := by
  split
  next => exact h.exists_positional negative
  next hout =>
    refine h.exists_exponential ?_ negative
    rintro rfl
    exact hout ⟨by decide, by decide⟩

/-- A whole number as it is written. -/
def Written.ofInt (n : Int) : Written where
  negative := decide (n < 0)
  whole := digits n.natAbs
  fraction := none
  exponent := none
  digits_whole := digits_digits _
  leading := by
    intro hhead
    rw [eq_zero_of_head?_digits hhead, digits_zero]
  digits_fraction := by simp
  digits_exponent := by simp

/-- A whole number is written as its digits, with a sign if it is negative. -/
theorem Written.chars_ofInt (n : Int) : (ofInt n).chars = (Number.int n).chars := by
  simp [ofInt, Written.chars, Written.unsigned, fractionChars, exponentChars, Number.chars]

/-- A number is neither infinite nor NaN. -/
def Number.isFinite : Number → Bool
  | .int _ => true
  | .float x => x.isFinite

/-- **Every finite number is written as a number.** -/
theorem Number.exists_written {n : Number} (h : n.isFinite = true) :
    ∃ w : Written, w.chars = n.chars := by
  cases n with
  | int n => exact ⟨.ofInt n, Written.chars_ofInt n⟩
  | float x =>
    cases x with
    | finite negative significand scale =>
      obtain ⟨w, rfl, hbody⟩ := (leading_shortest significand scale).exists_body negative
      refine ⟨w, ?_⟩
      rw [Written.chars, hbody]
      rfl
    | infinite negative => cases h
    | nan => cases h

/-! ## What whole numbers are read as -/

/-- The digits of a number are all taken if the number fits a word, and else some are left out. -/
theorem wholeSignificand_digits (n : Nat) :
    n < Numeral.wordSize ∧ Numeral.wholeSignificand ((digits n).map digitValue) = (n, 0) ∨
      Numeral.wordSize ≤ n ∧ (Numeral.wholeSignificand ((digits n).map digitValue)).2 ≠ 0 := by
  have hword : 10 < Numeral.wordSize := by decide
  fun_induction digits n with
  | case1 n hn =>
    refine .inl ⟨by omega, ?_⟩
    simp only [Numeral.wholeSignificand, List.map_cons, List.map_nil, List.foldl_cons,
      List.foldl_nil, digitValue_digitChar hn]
    rw [if_pos ⟨trivial, by omega⟩, Nat.mul_zero, Nat.zero_add]
  | case2 n hn ih =>
    have hstep : Numeral.wholeSignificand
          ((digits (n / 10) ++ [digitChar (n % 10)]).map digitValue) =
        let p := Numeral.wholeSignificand ((digits (n / 10)).map digitValue)
        if p.2 = 0 ∧ 10 * p.1 + n % 10 < Numeral.wordSize then (10 * p.1 + n % 10, 0)
        else (p.1, p.2 + 1) := by
      rw [Numeral.wholeSignificand, List.map_append, List.foldl_append, List.map_singleton,
        digitValue_digitChar (by omega)]
      rfl
    rw [hstep]
    rcases ih with ⟨hlt, hall⟩ | ⟨hle, hsome⟩
    · have hn' : 10 * (n / 10) + n % 10 = n := by omega
      simp only [hall, hn', true_and]
      by_cases hfits : n < Numeral.wordSize
      · exact .inl ⟨hfits, if_pos hfits⟩
      · refine .inr ⟨by omega, ?_⟩
        rw [if_neg hfits]
        exact Nat.succ_ne_zero 0
    · refine .inr ⟨by omega, ?_⟩
      simp only [hsome, false_and, if_false]
      exact Nat.succ_ne_zero _

/-- A whole number is read as itself if it fits 64 bits, signed below zero and unsigned above, and
else as no whole number. -/
theorem Written.number_ofInt_iff {n k : Int} :
    (ofInt n).numeral.number = .ok (.int k) ↔
      k = n ∧ -(Numeral.wordSize / 2 : Nat) ≤ n ∧ n < Numeral.wordSize := by
  rw [Numeral.number]
  rcases wholeSignificand_digits n.natAbs with ⟨hlt, hall⟩ | ⟨hle, hsome⟩
  · have hwhole : Numeral.wholeSignificand (ofInt n).numeral.whole = (n.natAbs, 0) := hall
    simp only [hwhole]
    rw [if_pos ⟨rfl, rfl, trivial⟩]
    show Except.ok (Numeral.integer (decide (n < 0)) n.natAbs) = _ ↔ _
    rw [Except.ok.injEq, Numeral.integer]
    by_cases hneg : n < 0
    · rw [if_neg (by simpa using hneg)]
      split
      next hbig =>
        constructor
        · nofun
        · omega
      next hfits =>
        rw [Number.int.injEq]
        omega
    · rw [if_pos (by simpa using hneg), Number.int.injEq]
      omega
  · have hdropped : (Numeral.wholeSignificand (ofInt n).numeral.whole).2 ≠ 0 := hsome
    rcases hwhole : Numeral.wholeSignificand (ofInt n).numeral.whole with ⟨m, dropped⟩
    rw [hwhole] at hdropped
    simp only
    rw [if_neg fun h => hdropped h.2.2]
    constructor
    · intro h
      split at h <;> cases h
    · omega

end Courier.Json
