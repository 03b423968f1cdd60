import Courier.Proofs.Auth.Margin
import Courier.Proofs.Time.Spans

/-!
# When a credential counts as expired

`Credential.expiresWithin` compares the time that is left with a margin in integers.
`Credential.expiresWithin?` makes the comparison as a machine does: the two instants are taken from
each other in words, the margin becomes a span, and a margin that is too long for one is replaced by
the longest span.

It is the same comparison for all instants and margins (`Credential.expiresWithin?_eq`). Outside of
leap seconds it is the comparison of the expiry with the time that the margin leads to, in exact
nanoseconds (**`Credential.expiresWithin_exact`**), and so it can only turn out true if the margin
grows, time goes on or the expiry moves forward.
-/

namespace Courier.Auth

open Courier.Time

variable {c : Credential} {now : Instant}

/-- A credential expires within a margin, or has expired, as a machine finds out; none if a step of
it leaves the words. -/
def Credential.expiresWithin? (c : Credential) (margin : Duration) (now : Instant) :
    Option Bool := do
  return (← c.expiresAt.difference? now).le ((Span.ofDuration? margin).getD .longest)

/-- A credential expires within a margin exactly if there is no more time left. -/
theorem Credential.expiresWithin_iff {margin : Nat} :
    c.expiresWithin margin now = true ↔ c.expiresAt.since now ≤ margin := by
  rw [← Bool.not_eq_false, expiresWithin_eq_false_iff, Int.not_lt]

/-- **In words it is the same**, leap seconds and all. -/
theorem Credential.expiresWithin?_eq (c : Credential) (margin : Duration) (now : Instant) :
    c.expiresWithin? margin now = some (c.expiresWithin margin.total now) := by
  obtain ⟨left, hleft, htotal⟩ := c.expiresAt.exists_difference? now
  have hiff : left.le ((Span.ofDuration? margin).getD .longest) = true ↔
      c.expiresWithin margin.total now = true := by
    rw [Span.le_ofDuration?_iff, htotal, expiresWithin_iff]
  rw [expiresWithin?, hleft, Option.bind_eq_bind, Option.bind_some]
  exact congrArg some (Bool.eq_iff_iff.mpr hiff)

/-- A margin that is too long for a span is longer than any time there can be left. -/
theorem Credential.expiresWithin_of_ofDuration?_eq_none {margin : Duration}
    (h : Span.ofDuration? margin = none) : c.expiresWithin margin.total now = true := by
  rcases Span.ofDuration?_cases margin with ⟨s, hs, -⟩ | ⟨-, hlong⟩
  · cases h.symm.trans hs
  · obtain ⟨left, -, htotal⟩ := c.expiresAt.exists_difference? now
    have hle : left.total ≤ longestSpan := left.le_longest
    rw [expiresWithin_iff]
    omega

/-- Outside of leap seconds a credential expires within a margin exactly if it expires when the
margin has gone by, or before. -/
theorem Credential.expiresWithin_iff_total (hc : c.expiresAt.isLeap = false)
    (hnow : now.isLeap = false) {margin : Nat} :
    c.expiresWithin margin now = true ↔ c.expiresAt.total ≤ now.total + margin := by
  rw [expiresWithin_iff, Instant.since_eq hc hnow]
  omega

/-- **The comparison with the margin is exact.** Outside of leap seconds, for every margin:

* the instants are taken from each other without a fault, and exactly;
* what a machine finds out is that the expiry does not lie beyond the margin, in nanoseconds;
* where the margin is too long for a span, that is so anyway;
* a credential that expires no later expires within a margin that is no shorter, from a time that is
  no earlier. -/
theorem Credential.expiresWithin_exact (c : Credential) (margin : Duration) (now : Instant)
    (hc : c.expiresAt.isLeap = false) (hnow : now.isLeap = false) :
    (∃ left, c.expiresAt.difference? now = some left ∧
      left.total = c.expiresAt.total - now.total) ∧
    c.expiresWithin? margin now = some (c.expiresWithin margin.total now) ∧
    (c.expiresWithin margin.total now = true ↔ c.expiresAt.total ≤ now.total + margin.total) ∧
    (Span.ofDuration? margin = none → c.expiresWithin? margin now = some true) ∧
    ∀ (c' : Credential) (margin' : Duration) (now' : Instant),
      c'.expiresAt.isLeap = false → now'.isLeap = false →
      c'.expiresAt.total ≤ c.expiresAt.total → margin.total ≤ margin'.total →
      now.total ≤ now'.total → c.expiresWithin margin.total now = true →
        c'.expiresWithin margin'.total now' = true := by
  obtain ⟨left, hleft, htotal⟩ := c.expiresAt.exists_difference? now
  refine ⟨⟨left, hleft, htotal.trans (Instant.since_eq hc hnow)⟩, c.expiresWithin?_eq margin now,
    expiresWithin_iff_total hc hnow, ?_, ?_⟩
  · intro hnone
    rw [expiresWithin?_eq, expiresWithin_of_ofDuration?_eq_none hnone]
  · intro c' margin' now' hc' hnow' hexpiry hmargin htime h
    rw [expiresWithin_iff_total hc hnow] at h
    rw [expiresWithin_iff_total hc' hnow']
    omega

/-! ## From one end of the range to the other -/

/-- A credential that expires with the last instant. -/
def Credential.everlasting : Credential :=
  { Credential.spent with expiresAt := ⟨lastSecond, 999999999, by decide, by decide, by decide⟩ }

/-- The first instant. -/
def firstInstant : Instant :=
  ⟨firstSecond, 0, by decide, by decide, by decide⟩

/-- All seconds of the range and some nanoseconds. -/
def wholeRange (nanos : Nat) (h : nanos < nanosPerSecond) : Duration :=
  ⟨16544868105599, nanos, h⟩

/-- From the first instant on, the last one is as far away as the whole range is long, so it lies
beyond a margin that is a nanosecond shorter, and not beyond the longest margin. -/
theorem expiresWithin_exact_everlasting :
    Credential.everlasting.expiresAt.isLeap = false ∧ firstInstant.isLeap = false ∧
      Credential.everlasting.expiresWithin? (wholeRange 999999999 (by decide)) firstInstant =
        some true ∧
      Credential.everlasting.expiresWithin? (wholeRange 999999998 (by decide)) firstInstant =
        some false ∧
      Credential.everlasting.expiresWithin? ⟨18446744073709551615, 999999999, by decide⟩
        firstInstant = some true := by
  have hlast : Credential.everlasting.expiresAt.isLeap = false := by decide
  have hfirst : firstInstant.isLeap = false := by decide
  have hexact := fun margin =>
    Credential.everlasting.expiresWithin_exact margin firstInstant hlast hfirst
  refine ⟨hlast, hfirst, ?_, ?_, ?_⟩
  · obtain ⟨-, hwords, hiff, -⟩ := hexact (wholeRange 999999999 (by decide))
    rw [hwords, hiff.mpr (by decide)]
  · obtain ⟨-, hwords, hiff, -⟩ := hexact (wholeRange 999999998 (by decide))
    rw [hwords, Bool.eq_false_iff.mpr (mt hiff.mp (by decide))]
  · obtain ⟨-, -, -, hlong, -⟩ := hexact ⟨18446744073709551615, 999999999, by decide⟩
    exact hlong (if_pos (by decide))

end Courier.Auth
