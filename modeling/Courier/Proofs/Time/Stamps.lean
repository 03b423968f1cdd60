import Courier.Proofs.Text.Trimming
import Courier.Proofs.Time.Days
import Courier.Time.Rfc3339

/-!
# Instants are read back

What `Instant.text` writes, `Instant.ofText?` reads as the same instant
(**`Instant.ofText?_text`**). That holds of every instant there is: in years of four digits and in
others, to the nanosecond, and in a leap second.

The text is made of numbers with something between them that is no digit. `NoDigit` says so of what
follows a number, and each reader has a lemma about what the writer gives it to read.
-/

namespace Courier.Time

open Courier.Numeric Courier.Text

/-! ## Numbers -/

/-- What follows does not start with a digit. -/
def NoDigit (rest : List Char) : Prop :=
  ∀ c ∈ rest.head?, c.isDigit = false

/-- What starts with another character does not start with a digit. -/
theorem noDigit_cons {c : Char} {rest : List Char} (h : c.isDigit = false) :
    NoDigit (c :: rest) := by
  simpa [NoDigit] using h

/-- A text that does not start with a digit has no digits in front. -/
theorem NoDigit.takeWhile_eq_nil {rest : List Char} (h : NoDigit rest) :
    rest.takeWhile Char.isDigit = [] := by
  cases rest with
  | nil => rfl
  | cons c cs => exact List.takeWhile_cons_of_neg (by simp [h c rfl])

/-- Nor does a part of it from its front. -/
theorem NoDigit.take {rest : List Char} (h : NoDigit rest) (k : Nat) : NoDigit (rest.take k) := by
  cases rest with
  | nil => simpa using h
  | cons c cs =>
    cases k with
    | zero => simp [NoDigit]
    | succ k => exact noDigit_cons (h c rfl)

/-- No digits are dropped from it. -/
theorem NoDigit.dropWhile_eq {rest : List Char} (h : NoDigit rest) :
    rest.dropWhile Char.isDigit = rest := by
  cases rest with
  | nil => rfl
  | cons c cs => exact List.dropWhile_cons_of_neg (by simp [h c rfl])

/-- Of what is in front, all digits are taken, and nothing else. -/
theorem takeWhile_take_append {width : Nat} {ds rest : List Char}
    (hds : ∀ c ∈ ds, c.isDigit = true) (hlen : ds.length ≤ width)
    (hend : ds.length = width ∨ NoDigit rest) :
    ((ds ++ rest).take width).takeWhile Char.isDigit = ds := by
  have hrest : (rest.take (width - ds.length)).takeWhile Char.isDigit = [] := by
    rcases hend with rfl | hend
    · simp
    · exact (hend.take _).takeWhile_eq_nil
  rw [List.take_append, List.take_of_length_le hlen, List.takeWhile_append_of_pos hds, hrest,
    List.append_nil]

/-- Some digits are read up to their end. -/
theorem readDigits_append {width : Nat} {ds rest : List Char} (hne : ds ≠ [])
    (hds : ∀ c ∈ ds, c.isDigit = true) (hlen : ds.length ≤ width)
    (hend : ds.length = width ∨ NoDigit rest) :
    readDigits width (ds ++ rest) = some (ofDigits ds, rest) := by
  simp [readDigits, takeWhile_take_append hds hlen hend, hne]

/-- A number that fills its places is read back. -/
theorem readDigits_paddedDigits {width n : Nat} (hwidth : 0 < width) (h : n < Nat.pow 10 width)
    (rest : List Char) : readDigits width (paddedDigits width n ++ rest) = some (n, rest) := by
  have hlen := length_paddedDigits hwidth h
  rw [readDigits_append (paddedDigits_ne_nil _ _) (fun c => isDigit_of_mem_paddedDigits)
    (Nat.le_of_eq hlen) (.inl hlen), ofDigits_paddedDigits]

/-- A number with something behind it that is no digit is read back. -/
theorem readAllDigits_paddedDigits (width n : Nat) {rest : List Char} (h : NoDigit rest) :
    readAllDigits (paddedDigits width n ++ rest) = some (n, rest) := by
  unfold readAllDigits
  rw [readDigits_append (paddedDigits_ne_nil _ _) (fun c => isDigit_of_mem_paddedDigits) (by simp)
    (.inr h), ofDigits_paddedDigits]

/-! ## White space -/

/-- A number starts with a digit. -/
theorem exists_paddedDigits_eq_cons (width n : Nat) :
    ∃ d ds, paddedDigits width n = d :: ds ∧ d.isDigit = true := by
  obtain ⟨d, ds, hd⟩ := List.exists_cons_of_ne_nil (paddedDigits_ne_nil width n)
  have hmem : d ∈ paddedDigits width n := by
    rw [hd]
    exact List.mem_cons_self
  exact ⟨d, ds, hd, isDigit_of_mem_paddedDigits hmem⟩

/-- Nothing is skipped where no white space stands. -/
theorem skipBlanks_cons {c : Char} (h : isBlank c = false) (cs : List Char) :
    skipBlanks (c :: cs) = c :: cs := by
  simp [skipBlanks, h]

/-- Digits are not skipped. -/
theorem skipBlanks_paddedDigits (width n : Nat) (rest : List Char) :
    skipBlanks (paddedDigits width n ++ rest) = paddedDigits width n ++ rest := by
  obtain ⟨d, ds, hd, hdigit⟩ := exists_paddedDigits_eq_cons width n
  rw [hd, List.cons_append]
  exact skipBlanks_cons (isBlank_of_isDigit hdigit) _

/-! ## Fields -/

/-- A number of two digits is read back. -/
theorem readNumber_twoDigits {n : Nat} (h : n < 100) (rest : List Char) :
    readNumber 2 (paddedDigits 2 n ++ rest) = some (n, rest) := by
  rw [readNumber, skipBlanks_paddedDigits]
  exact readDigits_paddedDigits (by decide) h rest

/-- A separator is read. -/
theorem readSeparator_cons {c : Char} (h : isBlank c = false) (rest : List Char) :
    readSeparator c (c :: rest) = some ((), rest) := by
  simp [readSeparator, skipBlanks_cons h]

/-- A year of four digits is read back. -/
theorem readYear_paddedDigits {n : Nat} (h : n ≤ 9999) (rest : List Char) :
    readYear (paddedDigits 4 n ++ rest) = some ((n : Int), rest) := by
  have hread : readDigits 4 (paddedDigits 4 n ++ rest) = some (n, rest) :=
    readDigits_paddedDigits (by decide) (Nat.lt_succ_of_le h) rest
  have hskip := skipBlanks_paddedDigits 4 n rest
  obtain ⟨d, ds, hd, hdigit⟩ := exists_paddedDigits_eq_cons 4 n
  rw [hd, List.cons_append] at hread hskip ⊢
  unfold readYear
  rw [hskip]
  split
  next hsign =>
    obtain rfl := (List.cons.inj hsign).1
    cases hdigit
  next hsign =>
    obtain rfl := (List.cons.inj hsign).1
    cases hdigit
  next => rw [hread]; rfl

/-- A year is read back. -/
theorem readYear_yearChars (year : Int) {rest : List Char} (h : NoDigit rest) :
    readYear (yearChars year ++ rest) = some (year, rest) := by
  have hread := readAllDigits_paddedDigits 4 year.natAbs h
  unfold yearChars
  split
  next hshort =>
    have habs : (year.natAbs : Int) = year := by omega
    rw [readYear_paddedDigits (by omega), habs]
  next =>
    rw [List.cons_append]
    by_cases hneg : year < 0
    · have habs : -(year.natAbs : Int) = year := by omega
      rw [if_pos hneg, readYear, skipBlanks_cons (by decide)]
      simp only [hread, Option.map_some, habs]
    · have habs : (year.natAbs : Int) = year := by omega
      rw [if_neg hneg, readYear, skipBlanks_cons (by decide)]
      simp only [hread, Option.map_some, habs]

/-- A fraction in a number of places that it fills is read back. -/
theorem readFraction_paddedDigits {width n : Nat} (hpos : 0 < width) (hwidth : width ≤ 9)
    (h : n < Nat.pow 10 width) {rest : List Char} (hend : NoDigit rest) :
    readFraction ('.' :: (paddedDigits width n ++ rest)) =
      some (n * Nat.pow 10 (9 - width), rest) := by
  have hlen := length_paddedDigits hpos h
  have hdigits : ∀ c ∈ paddedDigits width n, c.isDigit = true :=
    fun c => isDigit_of_mem_paddedDigits
  have hfront : ((paddedDigits width n ++ rest).take 9).takeWhile Char.isDigit =
      paddedDigits width n := takeWhile_take_append hdigits (by omega) (.inr hend)
  have hback : (paddedDigits width n ++ rest).dropWhile Char.isDigit = rest := by
    rw [List.dropWhile_append_of_pos hdigits, hend.dropWhile_eq]
  simp only [readFraction, hfront, hback, hlen, ofDigits_paddedDigits, List.isEmpty_iff,
    paddedDigits_ne_nil, if_false]

/-- A fraction of a second is read back. -/
theorem readFraction_fractionChars {nanos : Nat} (h : nanos < nanosPerSecond) {rest : List Char}
    (hend : NoDigit rest) (hpoint : rest.head? ≠ some '.') :
    readFraction (fractionChars nanos ++ rest) = some (nanos, rest) := by
  unfold nanosPerSecond at h
  unfold fractionChars
  split
  next hzero =>
    subst hzero
    cases rest with
    | nil => rfl
    | cons c cs =>
      rw [List.nil_append, readFraction]
      intro _ hc
      obtain rfl := (List.cons.inj hc).1
      exact hpoint rfl
  next =>
    split
    next hmilli =>
      have hsum : nanos / 1000000 * Nat.pow 10 (9 - 3) = nanos := by
        show nanos / 1000000 * 1000000 = nanos
        omega
      have hlt : nanos / 1000000 < Nat.pow 10 3 := by
        show nanos / 1000000 < 1000
        omega
      rw [List.cons_append, readFraction_paddedDigits (by decide) (by decide) hlt hend, hsum]
    next =>
      split
      next hmicro =>
        have hsum : nanos / 1000 * Nat.pow 10 (9 - 6) = nanos := by
          show nanos / 1000 * 1000 = nanos
          omega
        have hlt : nanos / 1000 < Nat.pow 10 6 := by
          show nanos / 1000 < 1000000
          omega
        rw [List.cons_append, readFraction_paddedDigits (by decide) (by decide) hlt hend, hsum]
      next =>
        have hsum : nanos * Nat.pow 10 (9 - 9) = nanos := Nat.mul_one nanos
        rw [List.cons_append, readFraction_paddedDigits (by decide) (by decide) h hend, hsum]

/-! ## Whole instants -/

namespace Instant

/-- An instant lies in a year that days may lie in. -/
theorem year_mem (t : Instant) :
    firstYear ≤ (Date.ofDayNumber (t.seconds / secondsPerDay)).year ∧
      (Date.ofDayNumber (t.seconds / secondsPerDay)).year ≤ lastYear := by
  have hfirst : firstSecond / secondsPerDay ≤ t.seconds / secondsPerDay :=
    Int.ediv_le_ediv (by decide) t.first_le
  have hlast : t.seconds / secondsPerDay ≤ lastSecond / secondsPerDay :=
    Int.ediv_le_ediv (by decide) t.le_last
  exact ⟨Date.year_ofDayNumber_mono hfirst, Date.year_ofDayNumber_mono hlast⟩

/-- The second of the day that an instant lies in. -/
def ofDay (t : Instant) : Nat :=
  (t.seconds % secondsPerDay).toNat

/-- A day has 86400 seconds. -/
theorem ofDay_lt (t : Instant) : t.ofDay < 86400 := by
  unfold ofDay secondsPerDay
  omega

/-- A leap second follows second 59 of a minute. -/
theorem leap_cases (t : Instant) :
    t.nanos / nanosPerSecond = 0 ∧ t.nanos % nanosPerSecond = t.nanos ∨
      t.nanos / nanosPerSecond = 1 ∧ t.nanos % nanosPerSecond + nanosPerSecond = t.nanos ∧
        t.ofDay % 60 = 59 := by
  have hnanos := t.nanos_lt
  unfold ofDay
  unfold nanosPerSecond secondsPerDay at *
  omega

/-- What an instant is, it can be made of again. -/
theorem of?_eq (t : Instant) : of? t.seconds t.nanos = some t := by
  unfold of?
  rw [dif_pos ⟨t.first_le, t.le_last, t.nanos_lt⟩]

/-- The instant of a second and nanoseconds is the one that has them. -/
theorem of?_eq_some_iff {seconds : Int} {nanos : Nat} {t : Instant} :
    of? seconds nanos = some t ↔ t.seconds = seconds ∧ t.nanos = nanos := by
  constructor
  · intro h
    unfold of? at h
    split at h
    · rw [← Option.some.inj h]
      exact ⟨rfl, rfl⟩
    · cases h
  · rintro ⟨rfl, rfl⟩
    exact of?_eq t

/-- The fields that an instant is written with are those of the instant. -/
theorem ofFields?_eq (t : Instant) :
    ofFields? (Date.ofDayNumber (t.seconds / secondsPerDay)) (t.ofDay / 3600) (t.ofDay / 60 % 60)
      (t.ofDay % 60 + t.nanos / nanosPerSecond) (t.nanos % nanosPerSecond) 0 = some t := by
  have hday := t.ofDay_lt
  have hleap := t.leap_cases
  have hfields : (Date.ofDayNumber (t.seconds / secondsPerDay)).Valid ∧
      firstYear ≤ (Date.ofDayNumber (t.seconds / secondsPerDay)).year ∧
      (Date.ofDayNumber (t.seconds / secondsPerDay)).year ≤ lastYear ∧ t.ofDay / 3600 < 24 ∧
      t.ofDay / 60 % 60 < 60 ∧ t.ofDay % 60 + t.nanos / nanosPerSecond ≤ 60 ∧
      -secondsPerDay < 0 ∧ (0 : Int) < secondsPerDay := by
    refine ⟨Date.valid_ofDayNumber _, t.year_mem.1, t.year_mem.2, ?_, ?_, ?_, ?_, ?_⟩
    · omega
    · omega
    · omega
    · decide
    · decide
  have hseconds : t.seconds / secondsPerDay * secondsPerDay + t.ofDay = t.seconds := by
    unfold ofDay secondsPerDay
    omega
  unfold ofFields?
  rw [if_pos hfields, Date.dayNumber_ofDayNumber]
  rcases hleap with ⟨hnone, hnanos⟩ | ⟨hone, hnanos, hlast⟩
  · have hsecond : ¬ t.ofDay % 60 + t.nanos / nanosPerSecond = 60 := by omega
    have hsum : t.seconds / secondsPerDay * secondsPerDay + 3600 * (t.ofDay / 3600 : Nat) +
        60 * (t.ofDay / 60 % 60 : Nat) + (t.ofDay % 60 + t.nanos / nanosPerSecond : Nat) - 0 =
        t.seconds := by omega
    simp only [if_neg hsecond, hsum, hnanos]
    exact t.of?_eq
  · have hsecond : t.ofDay % 60 + t.nanos / nanosPerSecond = 60 := by omega
    have hsum : t.seconds / secondsPerDay * secondsPerDay + 3600 * (t.ofDay / 3600 : Nat) +
        60 * (t.ofDay / 60 % 60 : Nat) + (59 : Nat) - 0 = t.seconds := by omega
    simp only [if_pos hsecond, hsum, hnanos]
    exact t.of?_eq

/-- The fields of an instant, one after the other. -/
theorem chars_eq (t : Instant) :
    t.chars = yearChars (Date.ofDayNumber (t.seconds / secondsPerDay)).year ++
      '-' :: (paddedDigits 2 (Date.ofDayNumber (t.seconds / secondsPerDay)).month ++
      '-' :: (paddedDigits 2 (Date.ofDayNumber (t.seconds / secondsPerDay)).day ++
      'T' :: (paddedDigits 2 (t.ofDay / 3600) ++ ':' :: (paddedDigits 2 (t.ofDay / 60 % 60) ++
      ':' :: (paddedDigits 2 (t.ofDay % 60 + t.nanos / nanosPerSecond) ++
      (fractionChars (t.nanos % nanosPerSecond) ++ ['Z'])))))) := by
  simp [chars, ofDay]

/-- An instant is read back from what it is written as. -/
theorem readInstant_chars (t : Instant) : readInstant t.chars = some (t, []) := by
  have hday := t.ofDay_lt
  have hleap := t.leap_cases
  have hvalid := Date.valid_ofDayNumber (t.seconds / secondsPerDay)
  have hmonth := hvalid.month_le
  have hdate := hvalid.day_le
  have hfraction : readFraction (fractionChars (t.nanos % nanosPerSecond) ++ ['Z']) =
      some (t.nanos % nanosPerSecond, ['Z']) :=
    readFraction_fractionChars (Nat.mod_lt _ (by decide)) (noDigit_cons rfl) (by simp)
  have hoffset : readOffset (skipBlanks ['Z']) = some (0, []) := rfl
  have hfields := t.ofFields?_eq
  rw [chars_eq]
  unfold readInstant
  -- One field after the other, as they stand in the text.
  simp only [Option.bind_eq_bind]
  rw [readYear_yearChars _ (noDigit_cons rfl), Option.bind_some,
    readSeparator_cons (by decide), Option.bind_some,
    readNumber_twoDigits (by omega), Option.bind_some,
    readSeparator_cons (by decide), Option.bind_some,
    readNumber_twoDigits (by omega), Option.bind_some, readTimeMark, Option.bind_some,
    readNumber_twoDigits (by omega), Option.bind_some,
    readSeparator_cons (by decide), Option.bind_some,
    readNumber_twoDigits (by omega), Option.bind_some,
    readSeparator_cons (by decide), Option.bind_some,
    readNumber_twoDigits (by omega), Option.bind_some, hfraction, Option.bind_some,
    hoffset, Option.bind_some, hfields, Option.bind_some]

/-- **An instant is read back from its text.** -/
theorem ofText?_text (t : Instant) : ofText? t.text = some t := by
  unfold ofText? text
  rw [String.toList_ofList, readInstant_chars]
  rfl

end Instant

end Courier.Time
