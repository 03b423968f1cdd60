/-!
# Parts of a text

`parts` cuts a text at every separator; what is cut can be put together again. A text without a
separator is one part, and so is the empty text.

* `intercalate_parts`: the parts with the separator between them are the text.
* `not_mem_of_mem_parts`: no part holds the separator.
* `parts_intercalate`: no other parts do both.
-/

namespace Courier.Text

/-- Puts a character in front of the first part. -/
def consPart (c : α) : List (List α) → List (List α)
  | part :: rest => (c :: part) :: rest
  | [] => [[c]]

/-- The parts of a text between the characters that satisfy `p`. -/
def partsWhere (p : α → Bool) : List α → List (List α)
  | [] => [[]]
  | c :: cs => if p c then [] :: partsWhere p cs else consPart c (partsWhere p cs)

/-- The parts of a text between separators. -/
def parts (separator : Char) (cs : List Char) : List (List Char) :=
  partsWhere (· == separator) cs

/-- There is one part at least. -/
theorem partsWhere_ne_nil (p : α → Bool) (cs : List α) : partsWhere p cs ≠ [] := by
  cases cs with
  | nil => exact List.cons_ne_nil _ _
  | cons c cs =>
    rw [partsWhere]
    split
    · exact List.cons_ne_nil _ _
    · match partsWhere p cs with
      | [] => exact List.cons_ne_nil _ _
      | _ :: _ => exact List.cons_ne_nil _ _

/-- No part has a character at which it would have been cut. -/
theorem not_of_mem_partsWhere {p : α → Bool} {cs part : List α} {c : α}
    (hpart : part ∈ partsWhere p cs) (hc : c ∈ part) : p c = false := by
  induction cs generalizing part with
  | nil =>
    rw [List.mem_singleton.1 hpart] at hc
    exact absurd hc List.not_mem_nil
  | cons d cs ih =>
    rw [partsWhere] at hpart
    split at hpart
    · rcases List.mem_cons.1 hpart with rfl | hpart
      · exact absurd hc List.not_mem_nil
      · exact ih hpart hc
    · next hd =>
      match h : partsWhere p cs with
      | [] => exact absurd h (partsWhere_ne_nil p cs)
      | first :: rest =>
        rw [h, consPart] at hpart
        rcases List.mem_cons.1 hpart with rfl | hpart
        · rcases List.mem_cons.1 hc with rfl | hc
          · exact Bool.eq_false_iff.2 hd
          · exact ih (h ▸ List.mem_cons_self) hc
        · exact ih (h ▸ List.mem_cons_of_mem _ hpart) hc

/-- No part has the separator in it. -/
theorem not_mem_of_mem_parts {separator : Char} {cs part : List Char}
    (h : part ∈ parts separator cs) : separator ∉ part := fun hmem => by
  simpa using not_of_mem_partsWhere h hmem

/-- A character in front of the first part stands in front of all. -/
theorem intercalate_consPart (separator : List Char) (c : Char) {ps : List (List Char)}
    (h : ps ≠ []) : separator.intercalate (consPart c ps) = c :: separator.intercalate ps := by
  match ps with
  | [] => exact absurd rfl h
  | [part] => simp [consPart]
  | part :: next :: rest => simp [consPart, List.intercalate, List.intersperse]

/-- **The parts put together are what was cut.** -/
theorem intercalate_parts (separator : Char) (cs : List Char) :
    [separator].intercalate (parts separator cs) = cs := by
  rw [parts]
  induction cs with
  | nil => rfl
  | cons c cs ih =>
    rw [partsWhere]
    split
    · next h =>
      match hp : partsWhere (· == separator) cs with
      | [] => exact absurd hp (partsWhere_ne_nil _ cs)
      | first :: rest =>
        rw [hp] at ih
        simp only [beq_iff_eq] at h
        rw [h]
        simpa [List.intercalate, List.intersperse] using ih
    · rw [intercalate_consPart _ _ (partsWhere_ne_nil _ cs), ih]

/-- What holds no separator is one part. -/
theorem parts_of_not_mem {separator : Char} {cs : List Char} (h : separator ∉ cs) :
    parts separator cs = [cs] := by
  rw [parts]
  induction cs with
  | nil => rfl
  | cons c cs ih =>
    have hc : (c == separator) = false := by
      simpa using fun heq : c = separator => h (heq ▸ List.mem_cons_self)
    rw [partsWhere, hc, ih fun hmem => h (List.mem_cons_of_mem _ hmem)]
    rfl

/-- What stands in front of the first separator is the first part. -/
theorem parts_append_cons {separator : Char} {cs : List Char} (h : separator ∉ cs)
    (rest : List Char) :
    parts separator (cs ++ separator :: rest) = cs :: parts separator rest := by
  rw [parts, parts]
  induction cs with
  | nil => simp [partsWhere]
  | cons c cs ih =>
    have hc : (c == separator) = false := by
      simpa using fun heq : c = separator => h (heq ▸ List.mem_cons_self)
    rw [List.cons_append, partsWhere, hc, ih fun hmem => h (List.mem_cons_of_mem _ hmem)]
    rfl

/-- **Parts that are put together are cut apart again**, if none of them has the separator in it. -/
theorem parts_intercalate {separator : Char} {ps : List (List Char)} (hne : ps ≠ [])
    (h : ∀ part ∈ ps, separator ∉ part) :
    parts separator ([separator].intercalate ps) = ps := by
  induction ps with
  | nil => exact absurd rfl hne
  | cons part rest ih =>
    obtain ⟨hpart, hrest⟩ := List.forall_mem_cons.1 h
    match rest with
    | [] => simpa using parts_of_not_mem hpart
    | next :: more =>
      have hjoined : [separator].intercalate (part :: next :: more) =
          part ++ separator :: [separator].intercalate (next :: more) := by
        simp [List.intercalate, List.intersperse]
      rw [hjoined, parts_append_cons hpart, ih (List.cons_ne_nil _ _) hrest]

end Courier.Text
