/-!
# Dictionaries by name

A `Dict` holds one value for each of finitely many names, in the order of the names. Names are
compared character by character, which is also the order of their UTF-8 octets. The order is part of
the type, so two dictionaries with the same values are equal, whatever order they were filled in.

* `get?_insert`: what is looked up after an insertion.
-/

namespace Courier

/-- The entries of a dictionary are in strictly increasing order of their names. -/
def Ascending (entries : List (String × α)) : Prop :=
  entries.Pairwise fun a b => a.1 < b.1

/-- Values by name, in the order of the names. -/
structure Dict (α : Type) where
  /-- The names with their values. -/
  entries : List (String × α)
  /-- They are in order, each name once. -/
  ascending : Ascending entries

namespace Dict

/-! ## Insertion into ordered entries -/

/-- Puts a value under a name, in place of one that is there already. -/
def insertEntry (name : String) (a : α) : List (String × α) → List (String × α)
  | [] => [(name, a)]
  | (other, b) :: rest =>
    if name < other then (name, a) :: (other, b) :: rest
    else if name = other then (name, a) :: rest
    else (other, b) :: insertEntry name a rest

/-- Nothing is there after an insertion but what is put in and what was there before. -/
theorem mem_insertEntry {name : String} {a : α} {entries : List (String × α)} {x : String × α}
    (h : x ∈ insertEntry name a entries) : x = (name, a) ∨ x ∈ entries := by
  induction entries with
  | nil => exact Or.inl (List.mem_singleton.1 h)
  | cons e rest ih =>
    obtain ⟨other, b⟩ := e
    rw [insertEntry] at h
    split at h
    · rcases List.mem_cons.1 h with h | h
      · exact Or.inl h
      · exact Or.inr h
    · split at h
      · rcases List.mem_cons.1 h with h | h
        · exact Or.inl h
        · exact Or.inr (List.mem_cons_of_mem _ h)
      · rcases List.mem_cons.1 h with h | h
        · exact Or.inr (h ▸ List.mem_cons_self)
        · rcases ih h with h | h
          · exact Or.inl h
          · exact Or.inr (List.mem_cons_of_mem _ h)

/-- Of two names one comes first. -/
theorem lt_of_not_lt_of_ne {a b : String} (h : ¬a < b) (hne : a ≠ b) : b < a := by
  have hle : b ≤ a := String.not_lt.1 h
  refine Classical.byContradiction fun hn => hne ?_
  exact String.le_antisymm (String.not_lt.1 hn) hle

/-- The entries stay in order. -/
theorem ascending_insertEntry {name : String} {a : α} {entries : List (String × α)}
    (h : Ascending entries) : Ascending (insertEntry name a entries) := by
  induction entries with
  | nil => exact List.pairwise_singleton _ _
  | cons e rest ih =>
    obtain ⟨other, b⟩ := e
    obtain ⟨hhead, htail⟩ := List.pairwise_cons.1 h
    rw [insertEntry]
    split
    · next hlt =>
      refine List.pairwise_cons.2 ⟨fun x hx => ?_, h⟩
      rcases List.mem_cons.1 hx with rfl | hx
      · exact hlt
      · exact String.lt_trans hlt (hhead x hx)
    · next hlt =>
      split
      · next heq =>
        subst heq
        exact List.pairwise_cons.2 ⟨hhead, htail⟩
      · next hne =>
        refine List.pairwise_cons.2 ⟨fun x hx => ?_, ih htail⟩
        rcases mem_insertEntry hx with rfl | hx
        · exact lt_of_not_lt_of_ne hlt hne
        · exact hhead x hx

/-! ## Dictionaries -/

/-- The dictionary without names. -/
def empty : Dict α :=
  ⟨[], List.Pairwise.nil⟩

instance : Inhabited (Dict α) := ⟨empty⟩

instance [DecidableEq α] : DecidableEq (Dict α) := fun d e =>
  if h : d.entries = e.entries then
    isTrue (by cases d; cases e; cases h; rfl)
  else isFalse fun he => h (he ▸ rfl)

/-- Puts a value under a name, in place of one that is there already. -/
def insert (d : Dict α) (name : String) (a : α) : Dict α :=
  ⟨insertEntry name a d.entries, ascending_insertEntry d.ascending⟩

/-- The value under a name. -/
def get? (d : Dict α) (name : String) : Option α :=
  d.entries.lookup name

/-- A name has a value. -/
def contains (d : Dict α) (name : String) : Bool :=
  (d.get? name).isSome

/-- The dictionary of some entries; of two with one name the later counts. -/
def ofList (entries : List (String × α)) : Dict α :=
  entries.foldl (fun d e => d.insert e.1 e.2) empty

/-- The first entry is found under its own name, and passed over for any other. -/
theorem lookup_cons_eq (key name : String) (a : α) (rest : List (String × α)) :
    ((name, a) :: rest).lookup key = if key = name then some a else rest.lookup key := by
  rw [List.lookup_cons]
  by_cases h : key = name
  · rw [if_pos h, beq_iff_eq.2 h]
  · rw [if_neg h, beq_eq_false_iff_ne.2 h]

/-- What is put in is found under its name, and all the rest as before. -/
theorem lookup_insertEntry (name key : String) (a : α) (entries : List (String × α)) :
    (insertEntry name a entries).lookup key
      = if key = name then some a else entries.lookup key := by
  induction entries with
  | nil => exact lookup_cons_eq key name a []
  | cons e rest ih =>
    obtain ⟨other, b⟩ := e
    rw [insertEntry]
    split
    · exact lookup_cons_eq key name a _
    · split
      · next h =>
        subst h
        rw [lookup_cons_eq, lookup_cons_eq]
        split <;> rfl
      · next hne =>
        rw [lookup_cons_eq, lookup_cons_eq, ih]
        by_cases hk : key = other
        · have : key ≠ name := fun h => hne (h.symm.trans hk)
          rw [if_pos hk, if_neg this, if_pos hk]
        · rw [if_neg hk, if_neg hk]

/-- **What is looked up after an insertion:** what was put in under its name, and what was there
before under any other. -/
theorem get?_insert (d : Dict α) (name key : String) (a : α) :
    (d.insert name a).get? key = if key = name then some a else d.get? key :=
  lookup_insertEntry name key a d.entries

/-- A dictionary without names has nothing under any name. -/
theorem get?_empty (key : String) : (empty : Dict α).get? key = none := rfl

end Dict

end Courier
