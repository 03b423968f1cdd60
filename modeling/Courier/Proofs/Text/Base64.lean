import Courier.Proofs.Json.Texts
import Courier.Proofs.Results
import Courier.Text.Base64Url

/-!
# Base64 is read back, and nothing else is

What some octets are written as is read as those octets, and no other text is read as them:
**`decodeOctets_eq_ok_iff`**. So padding, foreign characters, a last group of one symbol and unused
bits that are set are all refused, for whatever they stand for would be written in another way.

Octets are cut into numbers of six bits, `sextets`, and each of these is written as its symbol. The
groups of the reader have a lemma each, which says what the group is read as, if it is read at all.
-/

namespace Courier.Text.Base64Url

open Courier.Json

/-! ## Symbols -/

/-- The octet of the symbol of a six-bit number. -/
def letter (n : Nat) : UInt8 :=
  UInt8.ofNat (symbol n).toNat

/-- The symbol of a number has that value. -/
theorem value?_letter : ∀ {n : Nat}, n < 64 → value? (letter n) = some n := by
  decide

/-- A symbol is one octet. -/
theorem utf8EncodeChar_symbol : ∀ {n : Nat}, n < 64 →
    String.utf8EncodeChar (symbol n) = [letter n] := by
  decide

/-- An octet that has a number is the symbol of that number. -/
theorem eq_letter_of_value? {b : UInt8} {n : Nat} (h : value? b = some n) :
    n < 64 ∧ b = letter n := by
  have hall : ∀ k < 256, ∀ n ∈ value? (UInt8.ofNat k), n < 64 ∧ UInt8.ofNat k = letter n := by
    decide +kernel
  have hb := hall b.toNat b.toNat_lt n
  rw [UInt8.ofNat_toNat] at hb
  exact hb h

variable {a b c d : UInt8} {offset n : Nat} {out : List UInt8}

/-- Only a symbol is read, and as its number. -/
theorem digit_eq_ok_iff : digit offset b = .ok n ↔ n < 64 ∧ b = letter n := by
  unfold digit
  constructor
  · intro h
    cases hb : value? b with
    | none => rw [hb] at h; cases h
    | some k =>
      rw [hb] at h
      obtain rfl := Except.ok.inj h
      exact eq_letter_of_value? hb
  · rintro ⟨hn, rfl⟩
    rw [value?_letter hn]

/-! ## Six bits at a time -/

/-- The six-bit numbers that some octets are cut into. -/
def sextets : List UInt8 → List Nat
  | [] => []
  | [a] => [a.toNat / 4, a.toNat % 4 * 16]
  | [a, b] => [a.toNat / 4, a.toNat % 4 * 16 + b.toNat / 16, b.toNat % 16 * 4]
  | a :: b :: c :: rest =>
    (a.toNat / 4) :: (a.toNat % 4 * 16 + b.toNat / 16) :: (b.toNat % 16 * 4 + c.toNat / 64)
      :: (c.toNat % 64) :: sextets rest

/-- The symbols of octets are those of their six-bit numbers. -/
theorem encodeChars_eq (bytes : List UInt8) : encodeChars bytes = (sextets bytes).map symbol := by
  fun_induction sextets bytes with
  | case4 a b c rest ih => simp [encodeChars, ih]
  | _ => rfl

/-- Six bits make a number below 64. -/
theorem lt_of_mem_sextets {bytes : List UInt8} (h : n ∈ sextets bytes) : n < 64 := by
  fun_induction sextets bytes with
  | case1 => cases h
  | case2 a =>
    have ha := a.toNat_lt
    simp only [List.mem_cons, List.not_mem_nil, or_false] at h
    omega
  | case3 a b =>
    have ha := a.toNat_lt
    have hb := b.toNat_lt
    simp only [List.mem_cons, List.not_mem_nil, or_false] at h
    omega
  | case4 a b c rest ih =>
    have ha := a.toNat_lt
    have hb := b.toNat_lt
    have hc := c.toNat_lt
    simp only [List.mem_cons] at h
    rcases h with h | h | h | h | h
    · omega
    · omega
    · omega
    · omega
    · exact ih h

/-- No octets are written with a dot. -/
theorem dot_not_mem_encodeChars (bytes : List UInt8) : '.' ∉ encodeChars bytes := by
  have hsymbol : ∀ n < 64, symbol n ≠ '.' := by decide
  rw [encodeChars_eq]
  intro hdot
  obtain ⟨n, hn, heq⟩ := List.mem_map.mp hdot
  exact hsymbol n (lt_of_mem_sextets hn) heq

/-- How many symbols some octets are written with. -/
theorem length_sextets (bytes : List UInt8) :
    (sextets bytes).length = (4 * bytes.length + 2) / 3 := by
  fun_induction sextets bytes with
  | case4 a b c rest ih =>
    simp only [List.length_cons, ih]
    omega
  | _ => simp

/-- The octets that some octets are written as. -/
theorem octets_encode (bytes : List UInt8) :
    octets (encode bytes) = (sextets bytes).map letter := by
  have hall : ∀ ns : List Nat, (∀ n ∈ ns, n < 64) → octetsOf (ns.map symbol) = ns.map letter := by
    intro ns hns
    induction ns with
    | nil => rfl
    | cons n ns ih =>
      obtain ⟨hn, hns⟩ := List.forall_mem_cons.mp hns
      have ih := ih hns
      unfold octetsOf at ih ⊢
      rw [List.map_cons, List.flatMap_cons, utf8EncodeChar_symbol hn, ih]
      rfl
  rw [encode, octets_ofList, encodeChars_eq]
  exact hall _ fun n => lt_of_mem_sextets

/-! ## Groups -/

theorem toNat_ofNat {k : Nat} (h : k < 256) : (UInt8.ofNat k).toNat = k :=
  Nat.mod_eq_of_lt h

/-- A number that is the one of an octet makes that octet. -/
theorem ofNat_eq {k : Nat} {u : UInt8} (h : k = u.toNat) : UInt8.ofNat k = u := by
  rw [h, UInt8.ofNat_toNat]

/-- Two symbols are read as what is written with them. -/
theorem pair_eq_ok_iff : pair offset a b = .ok out ↔ [a, b] = (sextets out).map letter := by
  simp only [pair, bind_eq_ok_iff, digit_eq_ok_iff]
  constructor
  · rintro ⟨x, ⟨hx, rfl⟩, y, ⟨hy, rfl⟩, h⟩
    split at h
    next => cases h
    next hlow =>
      obtain rfl := Except.ok.inj h
      have hu := toNat_ofNat (k := x * 4 + y / 16) (by omega)
      have hfirst : (x * 4 + y / 16) / 4 = x := by omega
      have hsecond : (x * 4 + y / 16) % 4 * 16 = y := by omega
      rw [sextets, hu, hfirst, hsecond]
      rfl
  · intro h
    match out with
    | [u] =>
      have hu := u.toNat_lt
      obtain ⟨rfl, rfl⟩ : a = letter (u.toNat / 4) ∧ b = letter (u.toNat % 4 * 16) := by
        simpa [sextets] using h
      refine ⟨_, ⟨by omega, rfl⟩, _, ⟨by omega, rfl⟩, ?_⟩
      rw [if_neg (by omega), ofNat_eq (u := u) (by omega)]
      rfl
    | [] | [_, _] | _ :: _ :: _ :: _ => simp [sextets] at h

/-- Three symbols are read as what is written with them. -/
theorem triple_eq_ok_iff :
    triple offset a b c = .ok out ↔ [a, b, c] = (sextets out).map letter := by
  simp only [triple, bind_eq_ok_iff, digit_eq_ok_iff]
  constructor
  · rintro ⟨x, ⟨hx, rfl⟩, y, ⟨hy, rfl⟩, z, ⟨hz, rfl⟩, h⟩
    split at h
    next => cases h
    next hlow =>
      obtain rfl := Except.ok.inj h
      have hu := toNat_ofNat (k := x * 4 + y / 16) (by omega)
      have hv := toNat_ofNat (k := y % 16 * 16 + z / 4) (by omega)
      have hfirst : (x * 4 + y / 16) / 4 = x := by omega
      have hsecond : (x * 4 + y / 16) % 4 * 16 + (y % 16 * 16 + z / 4) / 16 = y := by omega
      have hthird : (y % 16 * 16 + z / 4) % 16 * 4 = z := by omega
      rw [sextets, hu, hv, hfirst, hsecond, hthird]
      rfl
  · intro h
    match out with
    | [u, v] =>
      have hu := u.toNat_lt
      have hv := v.toNat_lt
      obtain ⟨rfl, rfl, rfl⟩ : a = letter (u.toNat / 4) ∧
          b = letter (u.toNat % 4 * 16 + v.toNat / 16) ∧ c = letter (v.toNat % 16 * 4) := by
        simpa [sextets] using h
      refine ⟨_, ⟨by omega, rfl⟩, _, ⟨by omega, rfl⟩, _, ⟨by omega, rfl⟩, ?_⟩
      rw [if_neg (by omega), ofNat_eq (u := u) (by omega), ofNat_eq (u := v) (by omega)]
      rfl
    | [] | [_] | _ :: _ :: _ :: _ => simp [sextets] at h

/-- Four symbols are those of three octets. -/
theorem length_eq_three (h : [a, b, c, d] = (sextets out).map letter) : out.length = 3 := by
  have hlength := congrArg List.length h
  simp only [List.length_map, length_sextets, List.length_cons, List.length_nil] at hlength
  omega

/-- Four symbols are read as what is written with them. -/
theorem quad_eq_ok_iff :
    quad offset a b c d = .ok out ↔ [a, b, c, d] = (sextets out).map letter := by
  simp only [quad, bind_eq_ok_iff, digit_eq_ok_iff]
  constructor
  · rintro ⟨x, ⟨hx, rfl⟩, y, ⟨hy, rfl⟩, z, ⟨hz, rfl⟩, t, ⟨ht, rfl⟩, h⟩
    obtain rfl := Except.ok.inj h
    have hu := toNat_ofNat (k := x * 4 + y / 16) (by omega)
    have hv := toNat_ofNat (k := y % 16 * 16 + z / 4) (by omega)
    have hw := toNat_ofNat (k := z % 4 * 64 + t) (by omega)
    have hfirst : (x * 4 + y / 16) / 4 = x := by omega
    have hsecond : (x * 4 + y / 16) % 4 * 16 + (y % 16 * 16 + z / 4) / 16 = y := by omega
    have hthird : (y % 16 * 16 + z / 4) % 16 * 4 + (z % 4 * 64 + t) / 64 = z := by omega
    have hfourth : (z % 4 * 64 + t) % 64 = t := by omega
    rw [sextets, hu, hv, hw, hfirst, hsecond, hthird, hfourth]
    rfl
  · intro h
    have hlength := length_eq_three h
    match out with
    | [u, v, w] =>
      have hu := u.toNat_lt
      have hv := v.toNat_lt
      have hw := w.toNat_lt
      obtain ⟨rfl, rfl, rfl, rfl⟩ : a = letter (u.toNat / 4) ∧
          b = letter (u.toNat % 4 * 16 + v.toNat / 16) ∧
          c = letter (v.toNat % 16 * 4 + w.toNat / 64) ∧ d = letter (w.toNat % 64) := by
        simpa [sextets] using h
      refine ⟨_, ⟨by omega, rfl⟩, _, ⟨by omega, rfl⟩, _, ⟨by omega, rfl⟩, _, ⟨by omega, rfl⟩, ?_⟩
      rw [ofNat_eq (u := u) (by omega), ofNat_eq (u := v) (by omega),
        ofNat_eq (u := w) (by omega)]
      rfl

/-! ## Whole texts -/

/-- Padding is no symbol. -/
theorem letter_ne_pad : ∀ {n : Nat}, n < 64 → letter n ≠ pad := by
  decide

/-- Where there is padding nothing is read, and nothing is written like that. -/
theorem padded_eq_ok_iff {bytes : List UInt8} (hpad : pad ∈ bytes)
    (symbols : List (Except Fault Nat)) :
    padded symbols = .ok out ↔ bytes = (sextets out).map letter := by
  constructor
  · intro h
    simp only [padded, bind_eq_ok_iff] at h
    obtain ⟨_, _, h⟩ := h
    cases h
  · rintro rfl
    obtain ⟨n, hn, hpad⟩ := List.mem_map.mp hpad
    exact absurd hpad (letter_ne_pad (lt_of_mem_sextets hn))

/-- The symbols of a last group are read as what is written with them. -/
theorem lastGroup_eq_ok_iff {bytes : List UInt8} (hshort : bytes.length ≤ 4) :
    lastGroup offset bytes = .ok out ↔ bytes = (sextets out).map letter := by
  match bytes with
  | [] =>
    match out with
    | [] => simp [lastGroup, sextets]
    | [_] | [_, _] | _ :: _ :: _ :: _ => simp [lastGroup, sextets]
  | [a] =>
    constructor
    · intro h
      simp only [lastGroup, bind_eq_ok_iff] at h
      obtain ⟨_, _, h⟩ := h
      cases h
    · intro h
      match out with
      | [] | [_] | [_, _] | _ :: _ :: _ :: _ => simp [sextets] at h
  | [a, b] => exact pair_eq_ok_iff
  | [a, b, c] =>
    rw [lastGroup]
    split
    next hc => exact padded_eq_ok_iff (by simp [hc]) _
    next => exact triple_eq_ok_iff
  | [a, b, c, d] =>
    rw [lastGroup]
    split
    next hd => exact padded_eq_ok_iff (by simp [hd.2]) _
    next =>
      split
      next hd => exact padded_eq_ok_iff (by simp [hd]) _
      next => exact quad_eq_ok_iff

/-- The symbols of all groups are read as what is written with them. -/
theorem groups_eq_ok_iff {bytes : List UInt8} :
    groups offset bytes = .ok out ↔ bytes = (sextets out).map letter := by
  fun_induction groups offset bytes generalizing out with
  | case1 offset a b c d e rest ih =>
    simp only [bind_eq_ok_iff, quad_eq_ok_iff, ih]
    constructor
    · rintro ⟨front, hfront, back, hback, h⟩
      obtain rfl := Except.ok.inj h
      have hlength := length_eq_three hfront
      match front with
      | [u, v, w] =>
        show [a, b, c, d] ++ e :: rest = (sextets [u, v, w]).map letter ++ _
        rw [hfront, hback]
        rfl
    · intro h
      match out with
      | u :: v :: w :: back =>
        obtain ⟨hfront, hback⟩ : [a, b, c, d] = (sextets [u, v, w]).map letter ∧
            e :: rest = (sextets back).map letter := by
          simpa [sextets, and_assoc] using h
        exact ⟨[u, v, w], hfront, back, hback, rfl⟩
      | [] | [_] | [_, _] => simp [sextets] at h
  | case2 offset l hlong =>
    apply lastGroup_eq_ok_iff
    match l with
    | [] | [_] | [_, _] | [_, _, _] | [_, _, _, _] => simp
    | a :: b :: c :: d :: e :: rest => exact absurd rfl (hlong a b c d e rest)

/-- **Octets are read if they are what some octets are written as**, and as those. -/
theorem decodeOctets_eq_ok_iff {bytes : List UInt8} :
    decodeOctets bytes = .ok out ↔ bytes = octets (encode out) := by
  rw [octets_encode, decodeOctets]
  split
  next last hlast =>
    split
    next hodd =>
      -- The last octet is no symbol, which is noticed before anything else.
      constructor
      · intro h
        cases h
      · rintro rfl
        obtain ⟨n, hn, rfl⟩ := List.mem_map.mp (List.mem_of_getLast? hlast)
        rw [value?_letter (lt_of_mem_sextets hn)] at hodd
        simp at hodd
    next => exact groups_eq_ok_iff
  next hnone =>
    rw [List.getLast?_eq_none_iff.mp hnone]
    show groups 0 [] = .ok out ↔ _
    exact groups_eq_ok_iff

end Courier.Text.Base64Url
