/-!
# Text as octets

A text travels as its UTF-8 octets. `octets` writes them, `ofOctets?` reads them back strictly, and
`ofOctetsLossy` reads any octets at all, putting U+FFFD in place of what is not UTF-8.

* `ofOctets?_octets`: a text is read back from its octets.
* `octets_inj`: so texts are told apart by their octets.
-/

namespace Courier.Text

/-! ## Writing and strict reading -/

/-- The UTF-8 octets of a text. -/
def octets (s : String) : List UInt8 :=
  s.toList.flatMap String.utf8EncodeChar

/-- The text with these UTF-8 octets, if they are UTF-8. -/
def ofOctets? (bytes : List UInt8) : Option String :=
  String.fromUTF8? bytes.toByteArray

/-- The octets of a text are its bytes. -/
theorem toByteArray_octets (s : String) : (octets s).toByteArray = s.toByteArray := by
  rw [← String.ofList_toList (s := s), String.toByteArray_ofList]
  simp [octets, List.utf8Encode]

/-- **A text is read back from its octets.** -/
theorem ofOctets?_octets (s : String) : ofOctets? (octets s) = some s := by
  rw [ofOctets?, toByteArray_octets]
  simp only [String.fromUTF8?, dif_pos s.isValidUTF8]
  rfl

/-- A text is told by its octets. -/
theorem octets_inj {s t : String} : octets s = octets t ↔ s = t := by
  constructor
  · intro h
    have hread := ofOctets?_octets s
    rw [h, ofOctets?_octets] at hread
    exact (Option.some.inj hread).symm
  · rintro rfl
    rfl

/-! ## Reading with replacement

The reader stands between characters or owes some continuation octets, the next of which lies in a
known range. An octet outside that range ends the unfinished character, which is replaced as a
whole, and is then read as a first octet itself. -/

/-- Where the reader stands. -/
inductive Decoding where
  /-- Between characters. -/
  | start
  /-- Inside a character with the bits `code` so far, owing `owed` octets after the next one, which
  lies from `low` to `high`. -/
  | inside (code owed low high : Nat)
  deriving DecidableEq

/-- The replacement character. -/
def replacement : Char := '\ufffd'

/-- What a first octet stands for: a whole character, the start of one, or nothing. -/
def Decoding.first (b : Nat) : Decoding × List Char :=
  if b ≤ 0x7F then (.start, [Char.ofNat b])
  else if 0xC2 ≤ b ∧ b ≤ 0xDF then (.inside (b - 0xC0) 0 0x80 0xBF, [])
  else if b = 0xE0 then (.inside 0 1 0xA0 0xBF, [])
  else if b = 0xED then (.inside 0xD 1 0x80 0x9F, [])
  else if 0xE1 ≤ b ∧ b ≤ 0xEF then (.inside (b - 0xE0) 1 0x80 0xBF, [])
  else if b = 0xF0 then (.inside 0 2 0x90 0xBF, [])
  else if 0xF1 ≤ b ∧ b ≤ 0xF3 then (.inside (b - 0xF0) 2 0x80 0xBF, [])
  else if b = 0xF4 then (.inside 4 2 0x80 0x8F, [])
  else (.start, [replacement])

/-- Reads one octet: the new standing and the characters it settles. -/
def Decoding.step : Decoding → Nat → Decoding × List Char
  | .start, b => first b
  | .inside code owed low high, b =>
    if low ≤ b ∧ b ≤ high then
      let code := code * 0x40 + (b - 0x80)
      match owed with
      | 0 => (.start, [Char.ofNat code])
      | n + 1 => (.inside code n 0x80 0xBF, [])
    else
      let (next, settled) := first b
      (next, replacement :: settled)

/-- The characters of some octets from a given standing; an unfinished last one is replaced. -/
def Decoding.run : Decoding → List UInt8 → List Char
  | .start, [] => []
  | .inside .., [] => [replacement]
  | d, b :: rest =>
    let (next, settled) := d.step b.toNat
    settled ++ run next rest

/-- Reads octets as UTF-8, with U+FFFD for every longest run that no character can go on from. -/
def ofOctetsLossy (bytes : List UInt8) : String :=
  String.ofList (Decoding.run .start bytes)

end Courier.Text
