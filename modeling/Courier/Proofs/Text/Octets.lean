import Courier.Text.Utf8

/-!
# The order of texts is that of their octets

Texts are compared character by character. Their UTF-8 octets, compared one by one, come in the same
order: **`octets_lt_iff`**. A character with a larger code point has octets that are larger at the
first place where they differ, and there is such a place, whatever follows
(`utf8EncodeChar_append_lt`).
-/

namespace Courier.Text

/-! ## Characters -/

/-- Of two numbers with six bits in each of their last places, the one with the smaller first place
that differs is the smaller one. -/
theorem places_lt {m n : Nat} (h : m < n) :
    m / 262144 < n / 262144 ∨ m / 262144 = n / 262144 ∧
      (m / 4096 % 64 < n / 4096 % 64 ∨ m / 4096 % 64 = n / 4096 % 64 ∧
        (m / 64 % 64 < n / 64 % 64 ∨ m / 64 % 64 = n / 64 % 64 ∧ m % 64 < n % 64)) := by
  have hlast : m / 64 < n / 64 ∨ m / 64 = n / 64 ∧ m % 64 < n % 64 := by omega
  have hthird : m / 64 / 64 < n / 64 / 64 ∨
      m / 64 / 64 = n / 64 / 64 ∧ m / 64 % 64 ≤ n / 64 % 64 := by omega
  have hsecond : m / 64 / 64 / 64 < n / 64 / 64 / 64 ∨
      m / 64 / 64 / 64 = n / 64 / 64 / 64 ∧ m / 64 / 64 % 64 ≤ n / 64 / 64 % 64 := by omega
  simp only [Nat.div_div_eq_div_mul, Nat.reduceMul] at hlast hthird hsecond
  omega

/-- An octet that goes on with a character has the six bits of its place. -/
theorem later_octet (n : Nat) : (n % 64 + 128) % 256 = n % 64 + 128 := by
  omega

/-- The first of four octets has the bits of the first place. -/
theorem first_octet {n : Nat} (h : n < 0x110000) :
    (n / 262144 % 8 + 240) % 256 = n / 262144 + 240 := by
  omega

/-- What starts with a smaller character has octets that come before. -/
theorem utf8EncodeChar_append_lt {c d : Char} (h : c < d) (x y : List UInt8) :
    String.utf8EncodeChar c ++ x < String.utf8EncodeChar d ++ y := by
  have hlt : c.val.toNat < d.val.toNat := h
  have hd : d.val.toNat < 0x110000 := by
    rcases d.valid with h | h <;> omega
  have hc : c.val.toNat < 0x110000 := Nat.lt_trans hlt hd
  have hplaces := places_lt hlt
  unfold String.utf8EncodeChar
  dsimp only
  generalize c.val.toNat = m at *
  generalize d.val.toNat = n at *
  -- the first octet tells how many there are
  repeat' split
  all_goals
    simp only [List.cons_append, List.nil_append, List.cons_lt_cons_iff, UInt8.lt_iff_toNat_lt,
      ← UInt8.toNat_inj, UInt8.toNat_ofNat', Nat.reducePow, later_octet, first_octet hd,
      first_octet hc]
    omega

/-! ## Texts -/

/-- Characters in a row that come before others have octets that do. -/
theorem flatMap_utf8EncodeChar_lt {cs ds : List Char} (h : cs < ds) :
    cs.flatMap String.utf8EncodeChar < ds.flatMap String.utf8EncodeChar := by
  induction cs generalizing ds with
  | nil =>
    match ds with
    | [] => exact absurd h (List.lt_irrefl [])
    | d :: ds =>
      obtain ⟨first, more, hd⟩ :=
        List.exists_cons_of_ne_nil (String.utf8EncodeChar_ne_nil (c := d))
      rw [List.flatMap_nil, List.flatMap_cons, hd]
      exact List.nil_lt_cons _ _
  | cons c cs ih =>
    match ds with
    | [] => exact absurd h (List.not_lt_nil _)
    | d :: ds =>
      rw [List.flatMap_cons, List.flatMap_cons]
      obtain hlt | ⟨rfl, hlt⟩ := List.cons_lt_cons_iff.1 h
      · exact utf8EncodeChar_append_lt hlt _ _
      · exact List.append_left_lt (ih hlt)

/-- **Texts come in the order of their octets.** -/
theorem octets_lt_iff {s t : String} : octets s < octets t ↔ s < t := by
  have hmono : ∀ {s t : String}, s < t → octets s < octets t := fun h =>
    flatMap_utf8EncodeChar_lt (String.lt_iff.1 h)
  refine ⟨fun h => Classical.byContradiction fun hnot => ?_, hmono⟩
  by_cases hlt : t < s
  · exact List.lt_asymm h (hmono hlt)
  · have heq : s = t := String.le_antisymm (String.not_lt.1 hlt) (String.not_lt.1 hnot)
    exact List.lt_irrefl _ (heq ▸ h)

/-- The same with texts that are equal. -/
theorem octets_le_iff {s t : String} : octets s ≤ octets t ↔ s ≤ t := by
  rw [← List.not_lt, octets_lt_iff, String.not_lt]

end Courier.Text
