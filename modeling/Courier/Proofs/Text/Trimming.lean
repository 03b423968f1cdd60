import Courier.Text.Blank
import Mathlib.Data.List.DropRight

/-!
# Trimming

What is trimmed stays as it is when it is trimmed again (`trim_trim`), and what stands between two
pieces of white space is what is left of the three (`stripWhile_append`). A text without the copies
of a character at its end has none there, and with them it is the text that it was
(`trimEnd_append`, `getLast?_trimEnd`).
-/

namespace Courier.Text

variable {α : Type} (p : α → Bool)

/-- What is dropped from the end is what the library's function drops. -/
theorem dropEndWhile_eq (l : List α) : dropEndWhile p l = l.rdropWhile p := rfl

/-- What is left of a list starts with an element that is kept. -/
theorem dropWhile_stripWhile (l : List α) : (stripWhile p l).dropWhile p = stripWhile p l := by
  have hfront : stripWhile p l <+: l.dropWhile p := List.rdropWhile_prefix p _
  rw [List.dropWhile_eq_self_iff]
  intro hlength
  rw [hfront.getElem hlength]
  exact List.dropWhile_get_zero_not p l (hlength.trans_le hfront.length_le)

/-- What is stripped at both ends has nothing left to strip. -/
theorem stripWhile_stripWhile (l : List α) : stripWhile p (stripWhile p l) = stripWhile p l := by
  rw [stripWhile, dropWhile_stripWhile, stripWhile, dropEndWhile_eq, dropEndWhile_eq,
    List.rdropWhile_idempotent]

/-- **What is trimmed need not be trimmed again.** -/
theorem trim_trim (s : String) : trim (trim s) = trim s := by
  rw [trim, trim, String.toList_ofList, stripWhile_stripWhile]

/-- A digit is no white space. -/
theorem isBlank_of_isDigit {c : Char} (h : c.isDigit = true) : isBlank c = false := by
  have hrange : 48 ≤ c.toNat ∧ c.toNat ≤ 57 := by
    simpa [Char.isDigit, UInt32.le_iff_toNat_le] using h
  simp only [isBlank, Bool.or_eq_false_iff, Bool.and_eq_false_iff, beq_eq_false_iff_ne,
    decide_eq_false_iff_not]
  omega

/-- What is left between two pieces to take away, if nothing of it is. -/
theorem stripWhile_append {before kept after : List α} (hbefore : ∀ a ∈ before, p a = true)
    (hkept : ∀ a ∈ kept, p a = false) (hafter : ∀ a ∈ after, p a = true) :
    stripWhile p (before ++ kept ++ after) = kept := by
  have hself : kept.reverse.dropWhile p = kept.reverse := by
    rw [List.dropWhile_eq_self_iff]
    intro hlength
    exact Bool.eq_false_iff.mp (hkept _ (List.mem_reverse.mp (List.getElem_mem hlength)))
  rw [stripWhile, dropEndWhile, List.append_assoc, List.dropWhile_append_of_pos hbefore]
  cases kept with
  | nil =>
    rw [List.nil_append, List.dropWhile_eq_nil_iff.mpr hafter]
    rfl
  | cons a rest =>
    have hfirst : ¬ p a = true := by simp [hkept a List.mem_cons_self]
    rw [List.cons_append, List.dropWhile_cons_of_neg hfirst, ← List.cons_append,
      List.reverse_append, List.dropWhile_append_of_pos (by simpa using hafter), hself,
      List.reverse_reverse]

/-- What is taken away at the end of a text are copies of the character. -/
theorem trimEnd_append (c : Char) (s : String) :
    ∃ n, trimEnd c s ++ String.ofList (List.replicate n c) = s := by
  refine ⟨(s.toList.rtakeWhile (· == c)).length, ?_⟩
  have hcopies : List.replicate (s.toList.rtakeWhile (· == c)).length c
      = s.toList.rtakeWhile (· == c) :=
    (List.eq_replicate_of_mem fun d hd => by simpa using List.mem_rtakeWhile_imp hd).symm
  rw [trimEnd, dropEndWhile_eq, hcopies, ← String.ofList_append, List.rdropWhile_append_rtakeWhile,
    String.ofList_toList]

/-- No copy of the character is left at the end. -/
theorem getLast?_trimEnd (c : Char) (s : String) : (trimEnd c s).toList.getLast? ≠ some c := by
  rw [trimEnd, String.toList_ofList, dropEndWhile_eq]
  intro hlast
  obtain ⟨hne, hc⟩ := List.mem_getLast?_eq_getLast hlast
  exact List.rdropWhile_last_not _ _ hne (beq_iff_eq.2 hc.symm)

end Courier.Text
