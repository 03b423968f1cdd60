import Courier.Json.Literal
import Courier.Json.Printer

/-!
# Texts are read back

What the printer puts between quotes, the scanner cuts into pieces and puts together again:
**`scanText_escaped`** says that it gets the text, and what follows the closing quote.

Between the two stands `piecesOf`, the pieces that a character is cut into: a control character
without a letter of its own comes as one unit, and every other character as its octets, whether it
was escaped or not.
-/

namespace Courier.Json

open Courier.Text

/-- The octets of some characters. -/
def octetsOf (cs : List Char) : List UInt8 :=
  cs.flatMap String.utf8EncodeChar

@[simp] theorem octetsOf_nil : octetsOf [] = [] := rfl

/-- The octets of characters in a row are those of the first, then those of the others. -/
theorem octetsOf_append (cs ds : List Char) :
    octetsOf (cs ++ ds) = octetsOf cs ++ octetsOf ds := by
  simp [octetsOf]

/-- The octets of a text are those of its characters. -/
theorem octets_ofList (cs : List Char) : octets (String.ofList cs) = octetsOf cs := by
  simp [octets, octetsOf]

/-! ## Octets of a character -/

/-- A character of ASCII is one octet, and all others have octets beyond ASCII only. -/
theorem utf8EncodeChar_cases (c : Char) :
    c.toNat ≤ 0x7F ∧ String.utf8EncodeChar c = [UInt8.ofNat c.toNat] ∨
      ∀ b ∈ String.utf8EncodeChar c, 0x80 ≤ b.toNat := by
  unfold String.utf8EncodeChar
  simp only
  split
  next h => exact .inl ⟨h, rfl⟩
  next =>
    refine .inr ?_
    split
    · simp
      omega
    · split
      · simp
        omega
      · simp
        omega

/-- The octets of a character stand for no quote, no backslash and no control character, unless the
character is one itself. -/
theorem plain_of_mem_utf8EncodeChar {c : Char} (hquote : c ≠ '"') (hbackslash : c ≠ '\\')
    (hcontrol : ¬ c.toNat < 0x20) {b : UInt8} (hb : b ∈ String.utf8EncodeChar c) :
    isChar '"' b = false ∧ isChar '\\' b = false ∧ ¬ b.toNat < 0x20 := by
  rcases utf8EncodeChar_cases c with ⟨hascii, hone⟩ | hmany
  · rw [hone, List.mem_singleton] at hb
    have hvalue : b.toNat = c.toNat := by
      rw [hb]
      exact Nat.mod_eq_of_lt (by omega)
    have hne : ∀ d : Char, c ≠ d → isChar d b = false := by
      intro d hd
      simpa [isChar, hvalue] using fun h => hd (Char.ext (UInt32.toNat_inj.mp h))
    exact ⟨hne _ hquote, hne _ hbackslash, by omega⟩
  · have hlarge := hmany b hb
    refine ⟨?_, ?_, by omega⟩
    · simp [isChar]
      omega
    · simp [isChar]
      omega

/-! ## Pieces of a text -/

/-- The pieces that a character is cut into. -/
def piecesOf (c : Char) : List Piece :=
  if c.toNat < 0x20 ∧ c ≠ '\x08' ∧ c ≠ '\x0c' ∧ c ≠ '\n' ∧ c ≠ '\r' ∧ c ≠ '\t' then
    [.unit c.toNat]
  else (String.utf8EncodeChar c).map .octet

/-- Pieces in front of what is scanned. -/
def ontoAll (ps : List Piece) (scanned : List Piece × Except Fault (List UInt8)) :
    List Piece × Except Fault (List UInt8) :=
  (ps ++ scanned.1, scanned.2)

/-- An octet that stands for itself is a piece. -/
theorem scanPieces_cons {b : UInt8} (hquote : isChar '"' b = false)
    (hbackslash : isChar '\\' b = false) (hcontrol : ¬ b.toNat < 0x20) (rest : List UInt8) :
    scanPieces (b :: rest) = (Piece.octet b).onto (scanPieces rest) := by
  rw [scanPieces.eq_def]
  simp [hquote, hbackslash, hcontrol]

/-- A letter after a backslash is a piece. -/
theorem scanPieces_letter {e o : UInt8} (hunit : isChar 'u' e = false) (h : unescape? e = some o)
    (rest : List UInt8) :
    scanPieces (0x5C :: e :: rest) = (Piece.octet o).onto (scanPieces rest) := by
  have hquote : isChar '"' 0x5C = false := rfl
  have hbackslash : isChar '\\' 0x5C = true := rfl
  rw [scanPieces.eq_def]
  simp [hquote, hbackslash, hunit, h]

/-- Four digits after a backslash and the letter u are a piece. -/
theorem scanPieces_unit {a b c d : UInt8} {n : Nat} (h : hexUnit? a b c d = some n)
    (rest : List UInt8) :
    scanPieces (0x5C :: 0x75 :: a :: b :: c :: d :: rest) =
      (Piece.unit n).onto (scanPieces rest) := by
  have hquote : isChar '"' 0x5C = false := rfl
  have hbackslash : isChar '\\' 0x5C = true := rfl
  have hunit : isChar 'u' 0x75 = true := rfl
  rw [scanPieces.eq_def]
  simp [hquote, hbackslash, hunit, h]

/-- Octets that stand for themselves are pieces one by one. -/
theorem scanPieces_plain {bs : List UInt8}
    (h : ∀ b ∈ bs, isChar '"' b = false ∧ isChar '\\' b = false ∧ ¬ b.toNat < 0x20)
    (rest : List UInt8) :
    scanPieces (bs ++ rest) = ontoAll (bs.map .octet) (scanPieces rest) := by
  induction bs with
  | nil => rfl
  | cons b bs ih =>
    obtain ⟨⟨hquote, hbackslash, hcontrol⟩, hbs⟩ := List.forall_mem_cons.mp h
    rw [List.cons_append, scanPieces_cons hquote hbackslash hcontrol, ih hbs]
    rfl

/-- The unit of a control character is told by its digits. -/
theorem hexUnit?_hexDigit {n : Nat} (h : n < 0x20) :
    hexUnit? 0x30 0x30 (UInt8.ofNat (hexDigit (n / 16)).toNat)
      (UInt8.ofNat (hexDigit (n % 16)).toNat) = some n := by
  revert n
  decide

/-- A hexadecimal digit is one octet. -/
theorem utf8EncodeChar_hexDigit {n : Nat} (h : n < 16) :
    String.utf8EncodeChar (hexDigit n) = [UInt8.ofNat (hexDigit n).toNat] := by
  revert n
  decide

/-- A control character with two digits is cut into one unit. -/
theorem scanPieces_control {n : Nat} (h : n < 0x20) (rest : List UInt8) :
    scanPieces (octetsOf ['\\', 'u', '0', '0', hexDigit (n / 16), hexDigit (n % 16)] ++ rest) =
      ontoAll [.unit n] (scanPieces rest) := by
  have hhigh : String.utf8EncodeChar (hexDigit (n / 16)) = _ := utf8EncodeChar_hexDigit (by omega)
  have hlow : String.utf8EncodeChar (hexDigit (n % 16)) = _ := utf8EncodeChar_hexDigit (by omega)
  have hoctets : octetsOf ['\\', 'u', '0', '0', hexDigit (n / 16), hexDigit (n % 16)] =
      [0x5C, 0x75, 0x30, 0x30, UInt8.ofNat (hexDigit (n / 16)).toNat,
        UInt8.ofNat (hexDigit (n % 16)).toNat] := by
    simp only [octetsOf, List.flatMap_cons, List.flatMap_nil, hhigh, hlow]
    rfl
  rw [hoctets]
  exact scanPieces_unit (hexUnit?_hexDigit h) rest

/-- A character is cut into its pieces, escaped or not. -/
theorem scanPieces_escapeChar (c : Char) (rest : List UInt8) :
    scanPieces (octetsOf (escapeChar c) ++ rest) = ontoAll (piecesOf c) (scanPieces rest) := by
  unfold escapeChar
  by_cases hquote : c = '"'
  · subst hquote
    exact scanPieces_letter rfl rfl rest
  by_cases hbackslash : c = '\\'
  · subst hbackslash
    exact scanPieces_letter rfl rfl rest
  rw [if_neg hquote, if_neg hbackslash]
  -- Five letters stand for characters of their own.
  iterate 5
    split
    next h => subst h; exact scanPieces_letter rfl rfl rest
  split
  next hbackspace hfeed hline hreturn htab hcontrol =>
    have hpieces : piecesOf c = [.unit c.toNat] :=
      if_pos ⟨hcontrol, hbackspace, hfeed, hline, hreturn, htab⟩
    rw [hpieces]
    exact scanPieces_control hcontrol rest
  next hcontrol =>
    have hpieces : piecesOf c = (String.utf8EncodeChar c).map .octet :=
      if_neg fun h => hcontrol h.1
    have hoctets : octetsOf [c] = String.utf8EncodeChar c := List.append_nil _
    rw [hpieces, hoctets]
    exact scanPieces_plain (fun b => plain_of_mem_utf8EncodeChar hquote hbackslash hcontrol) rest

/-- A text is cut into the pieces of its characters, up to the closing quote. -/
theorem scanPieces_escaped (cs : List Char) (rest : List UInt8) :
    scanPieces (octetsOf (cs.flatMap escapeChar) ++ 0x22 :: rest) =
      (cs.flatMap piecesOf, .ok rest) := by
  induction cs with
  | nil =>
    rw [List.flatMap_nil, octetsOf_nil, List.nil_append, scanPieces.eq_def]
    rfl
  | cons c cs ih =>
    rw [List.flatMap_cons, octetsOf_append, List.append_assoc, scanPieces_escapeChar, ih]
    rfl

/-! ## Pieces put together -/

/-- A unit that belongs to no pair stands for a character of its own. -/
theorem assemble_unit (f : Fault) {n : Nat} (h : n < 0xD800) (ps : List Piece) :
    assemble f (.unit n :: ps) = (assemble f ps).map (codeOctets n ++ ·) := by
  have hleading : isLeading n = false := by
    simp [isLeading]
    omega
  have htrailing : isTrailing n = false := by
    simp [isTrailing]
    omega
  cases ps with
  | nil => simp [assemble, hleading, htrailing, Except.map]
  | cons p ps =>
    cases p with
    | octet b =>
      simp only [assemble, hleading, htrailing, Bool.or_self, Bool.false_eq_true, if_false]
      cases assemble f ps <;> rfl
    | unit m => simp [assemble, hleading, htrailing]

/-- Octets are put together in their order. -/
theorem assemble_octets (f : Fault) (bs : List UInt8) (ps : List Piece) :
    assemble f (bs.map .octet ++ ps) = (assemble f ps).map (bs ++ ·) := by
  induction bs with
  | nil => cases h : assemble f ps <;> simp [h, Except.map]
  | cons b bs ih =>
    rw [List.map_cons, List.cons_append, assemble, ih]
    cases assemble f ps <;> rfl

/-- The pieces of a character are put together to its octets. -/
theorem assemble_piecesOf (f : Fault) (c : Char) (ps : List Piece) :
    assemble f (piecesOf c ++ ps) = (assemble f ps).map (String.utf8EncodeChar c ++ ·) := by
  unfold piecesOf
  split
  next h =>
    have hcode : codeOctets c.toNat = String.utf8EncodeChar c := by
      rw [codeOctets, Char.ofNat_toNat]
    rw [List.singleton_append, assemble_unit f (by omega), hcode]
  next => exact assemble_octets f _ ps

/-- The pieces of a text are put together to its octets. -/
theorem assemble_pieces (f : Fault) (cs : List Char) :
    assemble f (cs.flatMap piecesOf) = .ok (octetsOf cs) := by
  induction cs with
  | nil => rfl
  | cons c cs ih =>
    rw [List.flatMap_cons, assemble_piecesOf, ih]
    rfl

/-! ## Whole texts -/

/-- **After its opening quote a text is read back**, whatever follows it. -/
theorem scanText_escaped (s : String) (rest : List UInt8) :
    scanText (octetsOf (s.toList.flatMap escapeChar) ++ 0x22 :: rest) = .ok (.ok s, rest) := by
  have htext : ofOctets? (octetsOf s.toList) = some s := ofOctets?_octets s
  simp only [scanText, scanPieces_escaped, assemble_pieces, bind, Except.bind, htext]

end Courier.Json
