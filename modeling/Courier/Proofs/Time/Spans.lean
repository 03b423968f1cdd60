import Courier.Time.Instant

/-!
# Spans of time in words

`Instant.since` counts in integers. A machine takes two instants from each other in words: the days
between them, then the seconds and the nanoseconds between their times of day. What comes of it is a
`Span`, seconds and nanoseconds that lie within the bounds of spans, and every step that leaves the
words or the bounds is a fault.

No step does (**`Instant.exists_difference?`**): from the first instant to the last there are fewer
than 2 * 10 ^ 13 seconds, and the longest span has 9 * 10 ^ 15. So the span between two instants is
the time between them, which outside of leap seconds is their difference (`Instant.since_eq`).

A length of time without a sign may be too long for a span. It is longer than any span then, and the
longest span can stand for it when spans are compared with it (**`Span.le_ofDuration?_iff`**).
-/

namespace Courier.Time

/-! ## Words -/

/-- The word of 64 bits with a sign that stands for a number, unless there is none. -/
def word? (n : Int) : Option Int64 :=
  if Int64.minValue.toInt ≤ n ∧ n ≤ Int64.maxValue.toInt then some (.ofInt n) else none

/-- A number within the bounds of a word has one. -/
theorem exists_word? {n : Int} (hleast : -9223372036854775808 ≤ n)
    (hgreatest : n ≤ 9223372036854775807) : ∃ w, word? n = some w ∧ w.toInt = n := by
  refine ⟨.ofInt n, if_pos ⟨hleast, hgreatest⟩, ?_⟩
  apply Int64.toInt_ofInt_of_le
  · exact hleast
  · exact Int.lt_of_le_of_lt hgreatest (by decide)

/-- The word of 32 bits with a sign that stands for a number, unless there is none. -/
def halfWord? (n : Int) : Option Int32 :=
  if Int32.minValue.toInt ≤ n ∧ n ≤ Int32.maxValue.toInt then some (.ofInt n) else none

/-- A number within the bounds of half a word has one. -/
theorem exists_halfWord? {n : Int} (hleast : -2147483648 ≤ n) (hgreatest : n ≤ 2147483647) :
    ∃ w, halfWord? n = some w ∧ w.toInt = n := by
  refine ⟨.ofInt n, if_pos ⟨hleast, hgreatest⟩, ?_⟩
  apply Int32.toInt_ofInt_of_le
  · exact hleast
  · exact Int.lt_of_le_of_lt hgreatest (by decide)

/-! ## Spans -/

/-- The nanoseconds of the longest span: it has as many milliseconds as a word can count. -/
def longestSpan : Int := Int64.maxValue.toInt * 1000000

theorem longestSpan_eq : longestSpan = 9223372036854775807000000 := by decide

/-- A time that has gone by, forwards or backwards. -/
structure Span where
  /-- The seconds, rounded down. -/
  seconds : Int64
  /-- The nanoseconds after them. -/
  nanos : Nat
  nanos_lt : nanos < nanosPerSecond
  /-- The bound of spans backwards. -/
  neg_longest_le : -longestSpan ≤ seconds.toInt * nanosPerSecond + nanos
  /-- The bound of spans forwards. -/
  le_longest : seconds.toInt * nanosPerSecond + nanos ≤ longestSpan

namespace Span

/-- The longest span. -/
def longest : Span :=
  ⟨9223372036854775, 807000000, by decide, by decide, by decide⟩

/-- The nanoseconds of a span. -/
def total (s : Span) : Int :=
  s.seconds.toInt * nanosPerSecond + s.nanos

/-- The span of seconds and nanoseconds, unless it is out of bounds. -/
def of? (seconds : Int64) (nanos : Nat) : Option Span :=
  if h : nanos < nanosPerSecond ∧ -longestSpan ≤ seconds.toInt * nanosPerSecond + nanos
      ∧ seconds.toInt * nanosPerSecond + nanos ≤ longestSpan then
    some ⟨seconds, nanos, h.1, h.2.1, h.2.2⟩
  else none

/-- The span of some days. -/
def ofDays? (days : Int64) : Option Span := do
  of? (← word? (days.toInt * Instant.secondsPerDay)) 0

/-- The span between two times of day, from that of `u` to that of `t`. Nanoseconds that are fewer
take a second. -/
def ofTimes? (t u : Instant) : Option Span := do
  let seconds ← word? (t.seconds % Instant.secondsPerDay - u.seconds % Instant.secondsPerDay)
  let corrected ← word? (seconds.toInt + t.leapCorrection u)
  let nanos ← word? ((t.nanos : Int) - u.nanos)
  let carried ← word? (corrected.toInt + nanos.toInt / nanosPerSecond)
  of? carried (nanos.toInt % nanosPerSecond).toNat

/-- The sum of two spans. Nanoseconds that make a second are carried over. -/
def add? (a b : Span) : Option Span := do
  let seconds ← word? (a.seconds.toInt + b.seconds.toInt)
  let nanos ← halfWord? (a.nanos + b.nanos)
  if nanos.toInt < nanosPerSecond then of? seconds nanos.toInt.toNat
  else of? (← word? (seconds.toInt + 1)) (nanos.toInt - nanosPerSecond).toNat

/-- Spans are compared by their seconds, and then by their nanoseconds. -/
def le (a b : Span) : Bool :=
  a.seconds < b.seconds || (a.seconds == b.seconds && a.nanos ≤ b.nanos)

/-- The nanoseconds of a span, with their number in a second written out. -/
theorem total_eq (s : Span) : s.total = s.seconds.toInt * 1000000000 + s.nanos := rfl

/-- The comparison is that of the nanoseconds in all. -/
theorem le_iff {a b : Span} : a.le b = true ↔ a.total ≤ b.total := by
  have ha : a.nanos < 1000000000 := a.nanos_lt
  have hb : b.nanos < 1000000000 := b.nanos_lt
  rw [total_eq, total_eq]
  unfold le
  simp only [Bool.or_eq_true, Bool.and_eq_true, decide_eq_true_eq, beq_iff_eq,
    Int64.lt_iff_toInt_lt, ← Int64.toInt_inj]
  omega

/-- Seconds and nanoseconds within the bounds are a span. -/
theorem exists_of? (seconds : Int64) {nanos : Nat} (hnanos : nanos < 1000000000)
    (hleast : -longestSpan ≤ seconds.toInt * 1000000000 + nanos)
    (hgreatest : seconds.toInt * 1000000000 + nanos ≤ longestSpan) :
    ∃ s, of? seconds nanos = some s ∧ s.total = seconds.toInt * 1000000000 + nanos :=
  ⟨⟨seconds, nanos, hnanos, hleast, hgreatest⟩, dif_pos ⟨hnanos, hleast, hgreatest⟩, rfl⟩

/-- A sum within the bounds is a span. -/
theorem exists_add? {a b : Span} (hleast : -longestSpan ≤ a.total + b.total)
    (hgreatest : a.total + b.total ≤ longestSpan) :
    ∃ s, a.add? b = some s ∧ s.total = a.total + b.total := by
  have ha : a.nanos < 1000000000 := a.nanos_lt
  have hb : b.nanos < 1000000000 := b.nanos_lt
  have hlongest := longestSpan_eq
  rw [total_eq, total_eq] at *
  obtain ⟨seconds, hseconds, hsum⟩ :=
    exists_word? (n := a.seconds.toInt + b.seconds.toInt) (by omega) (by omega)
  obtain ⟨nanos, hnanos, hrest⟩ :=
    exists_halfWord? (n := a.nanos + b.nanos) (by omega) (by omega)
  simp only [add?, hseconds, hnanos, Option.bind_eq_bind, Option.bind_some]
  by_cases hcarry : nanos.toInt < nanosPerSecond
  · have hfew : nanos.toInt < 1000000000 := hcarry
    obtain ⟨s, hs, htotal⟩ := exists_of? seconds
      (show nanos.toInt.toNat < 1000000000 by omega) (by omega) (by omega)
    rw [if_pos hcarry]
    exact ⟨s, hs, by omega⟩
  · have hmany : ¬ nanos.toInt < 1000000000 := hcarry
    obtain ⟨carried, hcarried, hnext⟩ :=
      exists_word? (n := seconds.toInt + 1) (by omega) (by omega)
    obtain ⟨s, hs, htotal⟩ := exists_of? carried
      (show (nanos.toInt - 1000000000).toNat < 1000000000 by omega) (by omega) (by omega)
    rw [if_neg hcarry, hcarried, Option.bind_some]
    exact ⟨s, hs, by omega⟩

/-- There is a span of a number of days that the bounds leave room for. -/
theorem exists_ofDays? (days : Int64) (hleast : -100000000000 ≤ days.toInt)
    (hgreatest : days.toInt ≤ 100000000000) :
    ∃ s, ofDays? days = some s ∧ s.total = days.toInt * 86400000000000 := by
  have hlongest := longestSpan_eq
  obtain ⟨seconds, hseconds, heq⟩ :=
    exists_word? (n := days.toInt * Instant.secondsPerDay)
      (by unfold Instant.secondsPerDay; omega) (by unfold Instant.secondsPerDay; omega)
  unfold Instant.secondsPerDay at heq
  obtain ⟨s, hs, htotal⟩ := exists_of? seconds (show 0 < 1000000000 by decide)
    (by omega) (by omega)
  rw [ofDays?, hseconds]
  exact ⟨s, hs, by omega⟩

end Span

/-! ## Between two instants -/

namespace Instant

/-- An instant as nanoseconds since 1970-01-01T00:00:00Z. -/
def total (t : Instant) : Int :=
  t.seconds * nanosPerSecond + t.nanos

/-- Outside of leap seconds the time between two instants is their difference. -/
theorem since_eq {t u : Instant} (ht : t.isLeap = false) (hu : u.isLeap = false) :
    t.since u = t.total - u.total := by
  have hcorrection : t.leapCorrection u = 0 := by
    unfold leapCorrection
    simp [ht, hu]
  unfold since total
  rw [hcorrection]
  unfold nanosPerSecond
  omega

/-- The correction for leap seconds is one second at most. -/
theorem leapCorrection_mem (t u : Instant) :
    t.leapCorrection u = -1 ∨ t.leapCorrection u = 0 ∨ t.leapCorrection u = 1 := by
  unfold leapCorrection
  simp only
  split <;> split <;> (try split) <;> simp

/-- No instant has two seconds of nanoseconds, leap second or not. -/
theorem nanos_lt_two (t : Instant) : t.nanos < 2000000000 := by
  have hnanos := t.nanos_lt
  unfold nanosPerSecond at hnanos
  omega

/-- The range of instants, in seconds. -/
theorem seconds_mem (t : Instant) : -8334601228800 ≤ t.seconds ∧ t.seconds ≤ 8210266876799 :=
  ⟨t.first_le, t.le_last⟩

/-- There is always a span between two times of day. -/
theorem exists_ofTimes? (t u : Instant) :
    ∃ s, Span.ofTimes? t u = some s ∧
      s.total = (t.seconds % 86400 - u.seconds % 86400 + t.leapCorrection u) * 1000000000
        + (t.nanos - u.nanos) := by
  have hcorrection := leapCorrection_mem t u
  have ht := t.nanos_lt_two
  have hu := u.nanos_lt_two
  have hlongest := longestSpan_eq
  obtain ⟨seconds, hseconds, hdifference⟩ :=
    exists_word? (n := t.seconds % 86400 - u.seconds % 86400) (by omega) (by omega)
  obtain ⟨corrected, hcorrected, hsum⟩ :=
    exists_word? (n := seconds.toInt + t.leapCorrection u) (by omega) (by omega)
  obtain ⟨nanos, hnanos, hrest⟩ :=
    exists_word? (n := (t.nanos : Int) - u.nanos) (by omega) (by omega)
  obtain ⟨carried, hcarried, hcarry⟩ :=
    exists_word? (n := corrected.toInt + nanos.toInt / 1000000000) (by omega) (by omega)
  obtain ⟨s, hs, htotal⟩ := Span.exists_of? carried
    (show (nanos.toInt % 1000000000).toNat < 1000000000 by omega) (by omega) (by omega)
  refine ⟨s, ?_, by omega⟩
  simp only [Span.ofTimes?, secondsPerDay, nanosPerSecond, Int.cast_ofNat_Int, hseconds, hcorrected,
    hnanos, hcarried, Option.bind_eq_bind, Option.bind_some]
  exact hs

/-- The span from `u` to `t`: the days between their dates, and what is between their times. -/
def difference? (t u : Instant) : Option Span := do
  let days ← word? (t.seconds / secondsPerDay - u.seconds / secondsPerDay)
  (← Span.ofDays? days).add? (← Span.ofTimes? t u)

/-- **The span between two instants is the time between them**, and there always is one. -/
theorem exists_difference? (t u : Instant) :
    ∃ s, t.difference? u = some s ∧ s.total = t.since u := by
  have hcorrection := leapCorrection_mem t u
  have htNanos := t.nanos_lt_two
  have huNanos := u.nanos_lt_two
  have htSeconds := t.seconds_mem
  have huSeconds := u.seconds_mem
  have hlongest := longestSpan_eq
  obtain ⟨days, hdays, hdifference⟩ :=
    exists_word? (n := t.seconds / 86400 - u.seconds / 86400) (by omega) (by omega)
  obtain ⟨ofDays, hofDays, hdaysTotal⟩ :=
    Span.exists_ofDays? days (by omega) (by omega)
  obtain ⟨ofTimes, hofTimes, htimesTotal⟩ := exists_ofTimes? t u
  have hsum : ofDays.total + ofTimes.total = t.since u := by
    unfold since nanosPerSecond
    omega
  obtain ⟨s, hs, htotal⟩ := Span.exists_add? (a := ofDays) (b := ofTimes) (by omega) (by omega)
  refine ⟨s, ?_, htotal.trans hsum⟩
  simp only [difference?, secondsPerDay, hdays, hofDays, hofTimes, Option.bind_eq_bind,
    Option.bind_some]
  exact hs

end Instant

/-! ## Lengths of time -/

/-- A length of time in words; it has no sign. -/
structure Duration where
  /-- The whole seconds. -/
  seconds : UInt64
  /-- The nanoseconds after them. -/
  nanos : Nat
  nanos_lt : nanos < nanosPerSecond

/-- The nanoseconds of a length of time. -/
def Duration.total (d : Duration) : Nat :=
  d.seconds.toNat * nanosPerSecond + d.nanos

namespace Span

/-- A length of time as a span, unless it is too long. Seconds that the longest span does not have
might have no word with a sign, so they are looked at first. -/
def ofDuration? (d : Duration) : Option Span :=
  if 9223372036854775 < d.seconds then none else of? d.seconds.toInt64 d.nanos

/-- Only a length of time beyond the longest span is too long. -/
theorem ofDuration?_cases (d : Duration) :
    (∃ s, ofDuration? d = some s ∧ s.total = d.total) ∨
      ofDuration? d = none ∧ longestSpan < d.total := by
  have hnanos : d.nanos < 1000000000 := d.nanos_lt
  have htotal : d.total = d.seconds.toNat * 1000000000 + d.nanos := rfl
  have hlongest := longestSpan_eq
  unfold ofDuration?
  by_cases hlong : 9223372036854775 < d.seconds
  · have hmany : 9223372036854775 < d.seconds.toNat := UInt64.lt_iff_toNat_lt.mp hlong
    exact .inr ⟨if_pos hlong, by omega⟩
  · have hfew : ¬ 9223372036854775 < d.seconds.toNat :=
      fun h => hlong (UInt64.lt_iff_toNat_lt.mpr h)
    have hword : d.seconds.toInt64.toInt = d.seconds.toNat := by
      apply BitVec.toInt_eq_toNat_of_lt
      rw [UInt64.toBitVec_toInt64, UInt64.toNat_toBitVec]
      omega
    rw [if_neg hlong]
    by_cases hle : (d.total : Int) ≤ longestSpan
    · obtain ⟨s, hs, heq⟩ := exists_of? d.seconds.toInt64 hnanos (by omega) (by omega)
      exact .inl ⟨s, hs, by omega⟩
    · refine .inr ⟨dif_neg ?_, by omega⟩
      rintro ⟨-, -, hle'⟩
      unfold nanosPerSecond at hle'
      omega

/-- **The longest span stands for what is too long**: whatever span is compared with it, the answer
is that for the length of time. -/
theorem le_ofDuration?_iff (s : Span) (d : Duration) :
    s.le ((ofDuration? d).getD longest) = true ↔ s.total ≤ d.total := by
  rcases ofDuration?_cases d with ⟨margin, hmargin, htotal⟩ | ⟨hnone, hlong⟩
  · rw [hmargin, Option.getD_some, le_iff, htotal]
  · have hle : s.total ≤ longestSpan := s.le_longest
    rw [hnone, Option.getD_none, le_iff]
    exact iff_of_true hle (by omega)

end Span

end Courier.Time
