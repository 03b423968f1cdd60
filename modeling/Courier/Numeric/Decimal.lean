/-!
# Decimal digits

Natural numbers as decimal digits: `digits` writes the shortest form, `ofDigits` reads any list of
digits, leading zeros and all.

* `ofDigits_digits`, `ofDigits_paddedDigits`: what is written is read back, with zeros in front or
  without.
* `isDigit_of_mem_digits`, `isDigit_of_mem_paddedDigits`: only digits are written.
* `length_paddedDigits`: a number below the power of ten takes as many places as it is given.
-/

namespace Courier.Numeric

/-- The digit of a number below ten. -/
def digitChar (n : Nat) : Char :=
  Char.ofNat (0x30 + n)

/-- The number of a digit. -/
def digitValue (c : Char) : Nat :=
  c.toNat - 0x30

/-- The decimal digits of a number, without leading zeros. -/
def digits (n : Nat) : List Char :=
  if n < 10 then [digitChar n] else digits (n / 10) ++ [digitChar (n % 10)]
termination_by n

/-- The number that some decimal digits stand for. -/
def ofDigits (cs : List Char) : Nat :=
  cs.foldl (fun n c => 10 * n + digitValue c) 0

/-- The decimal text of a number. -/
def decimal (n : Nat) : String :=
  String.ofList (digits n)

/-- The decimal digits of `n`, with zeros in front up to `width` places. -/
def paddedDigits (width n : Nat) : List Char :=
  List.replicate (width - (digits n).length) '0' ++ digits n

/-- A digit has the value that it is written for. -/
theorem digitValue_digitChar : ∀ {n : Nat}, n < 10 → digitValue (digitChar n) = n := by
  decide

/-- What is written for a number below ten is a digit. -/
theorem isDigit_digitChar : ∀ {n : Nat}, n < 10 → (digitChar n).isDigit = true := by
  decide

/-- One more digit at the end makes ten times as much, and the digit on top. -/
theorem ofDigits_append_singleton (cs : List Char) (c : Char) :
    ofDigits (cs ++ [c]) = 10 * ofDigits cs + digitValue c := by
  simp [ofDigits]

/-- **The digits of a number are read back.** -/
theorem ofDigits_digits (n : Nat) : ofDigits (digits n) = n := by
  fun_induction digits n with
  | case1 n h => simp [ofDigits, digitValue_digitChar h]
  | case2 n h ih =>
    rw [ofDigits_append_singleton, ih, digitValue_digitChar (by omega)]
    omega

/-- Only digits are written. -/
theorem isDigit_of_mem_digits {n : Nat} {c : Char} (h : c ∈ digits n) : c.isDigit = true := by
  fun_induction digits n with
  | case1 n hn =>
    rw [List.mem_singleton.1 h]
    exact isDigit_digitChar hn
  | case2 n hn ih =>
    rcases List.mem_append.1 h with h | h
    · exact ih h
    · rw [List.mem_singleton.1 h]
      exact isDigit_digitChar (by omega)

/-- There is at least one digit, even for zero. -/
theorem digits_ne_nil (n : Nat) : digits n ≠ [] := by
  rw [digits]
  split <;> simp

/-- A number below a power of ten has no more digits than the exponent says. -/
theorem length_digits_le {width n : Nat} (hwidth : 0 < width) (h : n < Nat.pow 10 width) :
    (digits n).length ≤ width := by
  induction width generalizing n with
  | zero => cases hwidth
  | succ width ih =>
    rw [digits]
    split
    next => simp
    next hn =>
      have hpow : n < Nat.pow 10 width * 10 := h
      have hpos : 0 < width := by
        rcases Nat.eq_zero_or_pos width with rfl | hpos
        · exact absurd h hn
        · exact hpos
      have hrest := ih hpos (n := n / 10) (by omega)
      rw [List.length_append, List.length_singleton]
      omega

/-! ## With zeros in front -/

/-- Zeros in front or not, there is at least one digit. -/
theorem paddedDigits_ne_nil (width n : Nat) : paddedDigits width n ≠ [] := by
  simp [paddedDigits, digits_ne_nil]

/-- Only digits are written, the zeros in front included. -/
theorem isDigit_of_mem_paddedDigits {width n : Nat} {c : Char} (h : c ∈ paddedDigits width n) :
    c.isDigit = true := by
  rcases List.mem_append.mp h with h | h
  · rw [(List.mem_replicate.mp h).2]
    rfl
  · exact isDigit_of_mem_digits h

/-- **The digits of a number are read back**, whatever zeros stand in front of them. -/
theorem ofDigits_paddedDigits (width n : Nat) : ofDigits (paddedDigits width n) = n := by
  have hzeros : ∀ k, (List.replicate k '0').foldl (fun n c => 10 * n + digitValue c) 0 = 0 := by
    intro k
    induction k with
    | zero => rfl
    | succ k ih => exact ih
  rw [ofDigits, paddedDigits, List.foldl_append, hzeros]
  exact ofDigits_digits n

/-- A number that fits into its places fills them. -/
theorem length_paddedDigits {width n : Nat} (hwidth : 0 < width) (h : n < Nat.pow 10 width) :
    (paddedDigits width n).length = width := by
  have hle := length_digits_le hwidth h
  rw [paddedDigits, List.length_append, List.length_replicate]
  omega

end Courier.Numeric
