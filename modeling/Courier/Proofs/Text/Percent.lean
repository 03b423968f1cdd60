import Courier.Text.Percent

/-!
# Percent encoding is read back

**`Percent.decode?_encode`**: a text is read back from what it is encoded as, whatever characters it
holds. The encoded text has unreserved characters and percent signs only
(`Percent.plain_of_mem_encode`), so the signs that separate one encoded text from another never
stand in one.

A text of unreserved characters alone needs no encoding: it is read as itself
(`Percent.decode?_of_unreserved`).
-/

namespace Courier.Text.Percent

/-! ## Digits and octets -/

/-- A hexadecimal digit has the value that it is written for. -/
theorem hexValue?_hexDigit : ∀ {n : Nat}, n < 16 → hexValue? (hexDigit n) = some n := by
  decide

/-- Hexadecimal digits stand for themselves. -/
theorem isUnreserved_hexDigit : ∀ {n : Nat}, n < 16 → isUnreserved (hexDigit n) := by
  decide

/-- A percent sign does not stand for itself. -/
theorem not_isUnreserved_percent : ¬ isUnreserved '%' := by
  decide

/-- An octet that stands for itself is the character of that number. -/
theorem utf8EncodeChar_of_isUnreserved {b : UInt8} (h : isUnreserved (Char.ofNat b.toNat)) :
    String.utf8EncodeChar (Char.ofNat b.toNat) = [b] := by
  have hall : ∀ k < 256, isUnreserved (Char.ofNat k) →
      String.utf8EncodeChar (Char.ofNat k) = [UInt8.ofNat k] := by
    decide +kernel
  have hb := hall b.toNat b.toNat_lt h
  rwa [UInt8.ofNat_toNat] at hb

/-! ## Reading -/

/-- An escape is read as its octet. -/
theorem decodeOctets?_escape (b : UInt8) (rest : List Char) :
    decodeOctets? (escape b ++ rest) = (decodeOctets? rest).map (b :: ·) := by
  have hb := b.toNat_lt
  have hwhole : 16 * (b.toNat / 16) + b.toNat % 16 = b.toNat := Nat.div_add_mod _ _
  show decodeOctets? ('%' :: hexDigit (b.toNat / 16) :: hexDigit (b.toNat % 16) :: rest) = _
  rw [decodeOctets?, hexValue?_hexDigit (by omega), hexValue?_hexDigit (by omega)]
  simp only [Option.bind_eq_bind, Option.bind_some, hwhole, UInt8.ofNat_toNat]
  rw [Option.map_eq_bind]
  rfl

/-- A character that is no percent sign is read as its own octets. -/
theorem decodeOctets?_cons {c : Char} (h : c ≠ '%') (rest : List Char) :
    decodeOctets? (c :: rest) = (decodeOctets? rest).map (String.utf8EncodeChar c ++ ·) := by
  rw [decodeOctets?, if_neg h, Option.map_eq_bind]
  · rfl
  · exact fun _ _ _ heq => absurd heq h

/-- What an octet is encoded as is read as that octet. -/
theorem decodeOctets?_encodeOctet (b : UInt8) (rest : List Char) :
    decodeOctets? (encodeOctet b ++ rest) = (decodeOctets? rest).map (b :: ·) := by
  unfold encodeOctet
  by_cases h : isUnreserved (Char.ofNat b.toNat)
  · have hne : Char.ofNat b.toNat ≠ '%' := fun heq => not_isUnreserved_percent (heq ▸ h)
    rw [if_pos h, List.singleton_append, decodeOctets?_cons hne, utf8EncodeChar_of_isUnreserved h]
    rfl
  · rw [if_neg h, decodeOctets?_escape]

/-- **Octets that are encoded are read back.** -/
theorem decodeOctets?_flatMap (bytes : List UInt8) :
    decodeOctets? (bytes.flatMap encodeOctet) = some bytes := by
  induction bytes with
  | nil => rfl
  | cons b bytes ih => rw [List.flatMap_cons, decodeOctets?_encodeOctet, ih, Option.map_some]

/-- **A text is read back from what it is encoded as.** -/
theorem decode?_encode (s : String) : decode? (encode s) = some s := by
  rw [decode?, encode, String.toList_ofList, decodeOctets?_flatMap]
  exact ofOctets?_octets s

/-- Without percent signs a text is read as its own octets. -/
theorem decodeOctets?_of_not_mem {cs : List Char} (h : '%' ∉ cs) :
    decodeOctets? cs = some (cs.flatMap String.utf8EncodeChar) := by
  induction cs with
  | nil => rfl
  | cons c cs ih =>
    rw [List.mem_cons, not_or] at h
    rw [decodeOctets?_cons (Ne.symm h.1), ih h.2, Option.map_some, List.flatMap_cons]

/-- A text of unreserved characters is read as itself. -/
theorem decode?_of_unreserved {s : String} (h : ∀ c ∈ s.toList, isUnreserved c) :
    decode? s = some s := by
  rw [decode?, decodeOctets?_of_not_mem fun hmem => not_isUnreserved_percent (h _ hmem)]
  exact ofOctets?_octets s

/-! ## Characters -/

/-- An octet is encoded in characters that stand for themselves, and percent signs. -/
theorem plain_of_mem_encodeOctet {b : UInt8} {c : Char} (h : c ∈ encodeOctet b) :
    isUnreserved c ∨ c = '%' := by
  have hb := b.toNat_lt
  unfold encodeOctet at h
  by_cases hplain : isUnreserved (Char.ofNat b.toNat)
  · rw [if_pos hplain] at h
    rw [List.mem_singleton.1 h]
    exact Or.inl hplain
  · rw [if_neg hplain] at h
    simp only [escape, List.mem_cons, List.not_mem_nil, or_false] at h
    obtain rfl | rfl | rfl := h
    · exact Or.inr rfl
    · exact Or.inl (isUnreserved_hexDigit (by omega))
    · exact Or.inl (isUnreserved_hexDigit (by omega))

/-- An encoded text has unreserved characters and percent signs only. -/
theorem plain_of_mem_encode {s : String} {c : Char} (h : c ∈ (encode s).toList) :
    isUnreserved c ∨ c = '%' := by
  rw [encode, String.toList_ofList, List.mem_flatMap] at h
  obtain ⟨b, -, hc⟩ := h
  exact plain_of_mem_encodeOctet hc

end Courier.Text.Percent
