import Courier.Json.Decode
import Courier.Proofs.Json.Laying
import Courier.Proofs.Results

/-!
# Records are read back

A record is read from an object field by field. What an object gives is told for any members that
are `Legible`: they have different names, those that are fields can be read, and the others can be
skipped. Then the object gives the fields among them (`Legible.cells`), and each of these has the
value of the member of its name, or what its absence means (`get_chosen`). In an object that has
been laid out from its text everything can be skipped, so only the fields matter there
(`legible_laid`, `Gives.get`).

A record that is written holds nothing but fields (`Wanted`), so the object gives all its members
(`cells_object`), and a record that holds the fields of a value is read back as that value
(`Holds.get`).
-/

namespace Courier.Json

variable {α : Type} {known : List (String × (Reading → Option Fault))}

/-! ## Objects with any members -/

/-- Of members with different names, each is the one that its name leads to. -/
theorem lookup_of_mem {rs : List (String × α)} (hnodup : (rs.map Prod.fst).Nodup)
    {r : String × α} (hr : r ∈ rs) : rs.lookup r.1 = some r.2 := by
  induction rs with
  | nil => cases hr
  | cons q rs ih =>
    obtain ⟨hnew, hrest⟩ := List.nodup_cons.mp hnodup
    rcases List.mem_cons.mp hr with rfl | hr
    · exact List.lookup_cons_self
    · have hne : (r.1 == q.1) = false := by
        simpa using fun heq : r.1 = q.1 => hnew (heq ▸ List.mem_map_of_mem hr)
      rw [List.lookup_cons, hne]
      exact ih hrest hr

/-- A name leads to the same member when all of them are changed. -/
theorem lookup_map {β : Type} (g : α → β) (rs : List (String × α)) (name : String) :
    (rs.map fun r => (r.1, g r.2)).lookup name = (rs.lookup name).map g := by
  induction rs with
  | nil => rfl
  | cons r rs ih =>
    rw [List.map_cons, List.lookup_cons, List.lookup_cons, ih]
    cases name == r.1 <;> rfl

/-- A name that is chosen leads to the same member among those that are chosen. -/
theorem lookup_filter {p : String → Bool} (rs : List (String × α)) {name : String}
    (h : p name = true) : (rs.filter fun r => p r.1).lookup name = rs.lookup name := by
  induction rs with
  | nil => rfl
  | cons r rs ih =>
    rw [List.filter_cons, List.lookup_cons]
    by_cases hname : name = r.1
    · subst hname
      rw [if_pos h, List.lookup_cons, beq_self_eq_true]
    · have hne : (name == r.1) = false := by simpa using hname
      split
      · rw [List.lookup_cons, hne, ih]
      · rw [hne, ih]

/-- Members as they stand in an object. -/
def inObject (rs : List (String × Reading)) : List (Except Fault String × Reading) :=
  rs.map fun r => (.ok r.1, r.2)

/-- An object that is laid out to its end, and all its names can be read. -/
def Reading.named (rs : List (String × Reading)) : Reading :=
  .object (inObject rs) none

/-- The members that are fields. -/
def chosen (known : List (String × (Reading → Option Fault))) (rs : List (String × Reading)) :
    List (String × Reading) :=
  rs.filter fun r => (known.lookup r.1).isSome

/-- No two members have one name; those that are fields can be read, and the others be skipped. -/
structure Legible (known : List (String × (Reading → Option Fault)))
    (rs : List (String × Reading)) : Prop where
  nodup : (rs.map Prod.fst).Nodup
  readable : ∀ r ∈ rs, ∀ fault, known.lookup r.1 = some fault → fault r.2 = none
  skippable : ∀ r ∈ rs, known.lookup r.1 = none → r.2.skip = none

/-- The fields are picked from members that are legible. -/
theorem Legible.pickMembers {rs : List (String × Reading)} (h : Legible known rs)
    {seen : List String} (hseen : ∀ r ∈ rs, seen.contains r.1 = false) :
    pickMembers known seen (inObject rs) = .ok (chosen known rs) := by
  induction rs generalizing seen with
  | nil => rfl
  | cons r rs ih =>
    obtain ⟨hnew, hnodup⟩ := List.nodup_cons.mp h.nodup
    obtain ⟨hreadable, hreadables⟩ := List.forall_mem_cons.mp h.readable
    obtain ⟨hskippable, hskippables⟩ := List.forall_mem_cons.mp h.skippable
    obtain ⟨hunseen, hseen⟩ := List.forall_mem_cons.mp hseen
    have hrest : Legible known rs := ⟨hnodup, hreadables, hskippables⟩
    rw [inObject, List.map_cons, Json.pickMembers, chosen, List.filter_cons]
    cases hfield : known.lookup r.1 with
    | none =>
      simp only [hskippable hfield, Option.isSome_none, Bool.false_eq_true, if_false]
      exact ih hrest hseen
    | some fault =>
      have hseen' : ∀ q ∈ rs, (r.1 :: seen).contains q.1 = false := by
        intro q hq
        have hne : q.1 ≠ r.1 := fun heq => hnew (heq ▸ List.mem_map_of_mem hq)
        rw [List.contains_cons, hseen q hq]
        simpa using hne
      have hpicked := ih hrest hseen'
      rw [inObject] at hpicked
      simp only [hunseen, hreadable fault hfield, Bool.false_eq_true, if_false, hpicked,
        Option.isSome_some, if_true]
      rfl

/-- An object with members that are legible gives the fields among them. -/
theorem Legible.cells {rs : List (String × Reading)} (h : Legible known rs) (dialect : Dialect) :
    cells dialect known (.named rs) = .ok ⟨chosen known rs, false⟩ := by
  rw [Reading.named, Json.cells, h.pickMembers (by simp)]
  rfl

/-- Where fields are picked, each of them can be read. -/
theorem fault_eq_none_of_pickMembers {seen : List String} {rs cs : List (String × Reading)}
    (h : pickMembers known seen (inObject rs) = .ok cs) {r : String × Reading} (hr : r ∈ rs)
    {fault : Reading → Option Fault} (hfault : known.lookup r.1 = some fault) :
    fault r.2 = none := by
  induction rs generalizing seen cs with
  | nil => cases hr
  | cons q rs ih =>
    rw [inObject, List.map_cons, pickMembers] at h
    cases hfield : known.lookup q.1 with
    | none =>
      simp only [hfield] at h
      split at h
      · cases h
      · rcases List.mem_cons.mp hr with rfl | hr
        · rw [hfield] at hfault
          cases hfault
        · exact ih h hr
    | some other =>
      simp only [hfield] at h
      split at h
      · cases h
      · split at h
        · cases h
        · next hnone =>
          rcases List.mem_cons.mp hr with rfl | hr
          · rw [hfield] at hfault
            rw [← Option.some.inj hfault]
            exact hnone
          · obtain ⟨cs', hrest, -⟩ := bind_eq_ok_iff.mp h
            exact ih hrest hr

/-- Where an object gives its fields, each of them can be read. -/
theorem fault_eq_none_of_cells {dialect : Dialect} {rs : List (String × Reading)} {c : Cells}
    (h : cells dialect known (.named rs) = .ok c) {r : String × Reading}
    (hr : r ∈ rs) {fault : Reading → Option Fault} (hfault : known.lookup r.1 = some fault) :
    fault r.2 = none := by
  rw [Reading.named, cells] at h
  obtain ⟨_, hclosed, -⟩ := map_eq_ok_iff.mp h
  obtain ⟨cs, hpicked, -⟩ := bind_eq_ok_iff.mp hclosed
  exact fault_eq_none_of_pickMembers hpicked hr hfault

/-- A field that can be read has no fault. -/
theorem RecordField.fault_eq_none {f : RecordField α} {r : Reading} {a : α}
    (h : f.read r = .ok a) : f.fault r = none := by
  simp [RecordField.fault, h]

/-- A field without a fault can be read. -/
theorem RecordField.exists_read {f : RecordField α} {r : Reading} (h : f.fault r = none) :
    ∃ a, f.read r = .ok a := by
  unfold RecordField.fault at h
  cases hread : f.read r with
  | error e => simp [hread] at h
  | ok a => exact ⟨a, rfl⟩

/-- A field has the value of the member of its name, or what its absence means. -/
theorem get_chosen {f : RecordField α} (hf : (known.lookup f.name).isSome = true)
    (rs : List (String × Reading)) :
    (Cells.mk (chosen known rs) false).get f = (rs.lookup f.name).elim f.absent f.read := by
  rw [Cells.get, chosen, lookup_filter (p := fun name => (known.lookup name).isSome) rs hf]
  cases rs.lookup f.name <;> rfl

/-! ## Objects laid out from their text -/

/-- Members as they are laid out from their texts. -/
def laidMembers (ms : List (String × Value)) : List (String × Reading) :=
  ms.map fun m => (m.1, m.2.laid)

/-- The members of an object are laid out each on its own. -/
theorem laid_object (ms : List (String × Value)) :
    (Value.object ms).laid = .named (laidMembers ms) := by
  rw [Value.laid, membersLaid_eq, Reading.named, inObject, laidMembers, List.map_map]
  rfl

variable {ms : List (String × Value)}

/-- Members with different names are legible if the fields among them can be read. -/
theorem legible_laid (hnodup : (ms.map Prod.fst).Nodup)
    (hread : ∀ p ∈ known, ∀ v, ms.lookup p.1 = some v → p.2 v.laid = none) :
    Legible known (laidMembers ms) where
  nodup := by simpa [laidMembers, Function.comp_def] using hnodup
  readable := by
    intro r hr fault hfault
    obtain ⟨m, hm, rfl⟩ := List.mem_map.mp hr
    obtain ⟨front, back, rfl, -⟩ := List.lookup_eq_some_iff.mp hfault
    exact hread (m.1, fault) (by simp) m.2 (lookup_of_mem hnodup hm)
  skippable := by
    intro r hr _
    obtain ⟨m, -, rfl⟩ := List.mem_map.mp hr
    exact m.2.skip_laid

/-- In an object with these members, laid out from its text, a field has a value. -/
def Gives (ms : List (String × Value)) (f : RecordField α) (a : α) : Prop :=
  (ms.lookup f.name).elim f.absent (fun v => f.read v.laid) = .ok a

/-- A field that has a value can be read where it is given. -/
theorem Gives.fault_eq_none {f : RecordField α} {a : α} (h : Gives ms f a) {v : Value}
    (hv : ms.lookup f.name = some v) : f.fault v.laid = none := by
  rw [Gives, hv] at h
  exact RecordField.fault_eq_none h

/-- A field is read with the value that it has. -/
theorem Gives.get {f : RecordField α} {a : α} (h : Gives ms f a)
    (known : List (String × (Reading → Option Fault)))
    (hf : (known.lookup f.name).isSome = true) :
    (Cells.mk (chosen known (laidMembers ms)) false).get f = .ok a := by
  rw [get_chosen hf, laidMembers, lookup_map Value.laid, ← h]
  cases ms.lookup f.name <;> rfl

/-- What is read off the text of a value is what is read off the value as it is laid out. -/
theorem decodeOctets_chars {sp : Spacing} (hsp : sp.White) (d : Decoder α) (v : Value) :
    decodeOctets d (octetsOf (v.chars sp 0)) = d v.laid := by
  rw [decodeOctets, layOut_chars hsp]
  show d v.laid >>= Decoder.closing none = _
  cases d v.laid <;> rfl

/-! ## Objects with nothing but fields -/

/-- What an object with these members gives. -/
def Cells.ofMembers (ms : List (String × Value)) : Cells :=
  ⟨ms.map fun m => (m.1, m.2.reading), false⟩

/-- Every member is one that is wanted and can be read, and no two have one name. -/
structure Wanted (known : List (String × (Reading → Option Fault))) (ms : List (String × Value)) :
    Prop where
  nodup : (ms.map Prod.fst).Nodup
  readable : ∀ m ∈ ms, ∃ fault, known.lookup m.1 = some fault ∧ fault m.2.reading = none

/-- An object without members has none that is not wanted. -/
theorem Wanted.nil (known : List (String × (Reading → Option Fault))) : Wanted known [] :=
  ⟨List.nodup_nil, by simp⟩

/-- One more member, with the name of a field and a value that the field can be read from. -/
theorem Wanted.cons {known : List (String × (Reading → Option Fault))}
    {ms : List (String × Value)} (h : Wanted known ms) {f : RecordField α} {v : Value} {a : α}
    (hread : f.read v.reading = .ok a) (hknown : known.lookup f.name = some f.fault)
    (hnew : f.name ∉ ms.map Prod.fst) : Wanted known ((f.name, v) :: ms) := by
  constructor
  · exact List.nodup_cons.mpr ⟨hnew, h.nodup⟩
  · rw [List.forall_mem_cons]
    exact ⟨⟨f.fault, hknown, RecordField.fault_eq_none hread⟩, h.readable⟩

/-- The members of a value are read each on its own. -/
theorem memberReadings_eq (ms : List (String × Value)) :
    memberReadings ms = inObject (ms.map fun m => (m.1, m.2.reading)) := by
  induction ms with
  | nil => rfl
  | cons m ms ih => rw [memberReadings, ih]; rfl

/-- Members that are wanted can be read, and there are no others. -/
theorem Wanted.legible {ms : List (String × Value)} (h : Wanted known ms) :
    Legible known (ms.map fun m => (m.1, m.2.reading)) where
  nodup := by simpa [Function.comp_def] using h.nodup
  readable := by
    intro r hr fault hfault
    obtain ⟨m, hm, rfl⟩ := List.mem_map.mp hr
    obtain ⟨own, hown, hnone⟩ := h.readable m hm
    rw [Option.some.inj (hown.symm.trans hfault)] at hnone
    exact hnone
  skippable := by
    intro r hr hfield
    obtain ⟨m, hm, rfl⟩ := List.mem_map.mp hr
    obtain ⟨own, hown, -⟩ := h.readable m hm
    cases hown.symm.trans hfield

/-- Members that are wanted are all chosen. -/
theorem Wanted.chosen_eq {ms : List (String × Value)} (h : Wanted known ms) :
    chosen known (ms.map fun m => (m.1, m.2.reading)) = ms.map fun m => (m.1, m.2.reading) := by
  apply List.filter_eq_self.mpr
  intro r hr
  obtain ⟨m, hm, rfl⟩ := List.mem_map.mp hr
  obtain ⟨own, hown, -⟩ := h.readable m hm
  rw [hown]
  rfl

/-- An object of members that are wanted gives all of them. -/
theorem cells_object {dialect : Dialect} {known : List (String × (Reading → Option Fault))}
    {ms : List (String × Value)} (h : Wanted known ms) :
    cells dialect known (Value.object ms).reading = .ok (.ofMembers ms) := by
  have hnamed : (Value.object ms).reading = .named (ms.map fun m => (m.1, m.2.reading)) := by
    rw [Value.reading, memberReadings_eq, Reading.named]
  rw [hnamed, h.legible.cells, h.chosen_eq]
  rfl

/-- What may be `null` and is not, is read as what it is. -/
theorem Decoder.option_eq_ok {d : Decoder α} {r : Reading} {a : α} (hr : r ≠ .null)
    (h : d r = .ok a) : Decoder.option d r = .ok (some a) := by
  cases r with
  | null => exact absurd rfl hr
  | _ => simp only [Decoder.option, h, Except.map]

/-- Among some members a field has a value. -/
inductive Holds (ms : List (String × Value)) (f : RecordField α) (a : α) : Prop where
  /-- A member has its name and its value. -/
  | given {v : Value} (hv : ms.lookup f.name = some v) (ha : f.read v.reading = .ok a)
  /-- No member has its name, which means the value. -/
  | absent (hv : ms.lookup f.name = none) (ha : f.absent = .ok a)

/-- A field is read with the value that it has. -/
theorem Holds.get {ms : List (String × Value)} {f : RecordField α} {a : α} (h : Holds ms f a) :
    (Cells.ofMembers ms).get f = .ok a := by
  rw [Cells.get, Cells.ofMembers, lookup_map Value.reading]
  cases h with
  | given hv ha => simp only [hv, Option.map_some, ha]
  | absent hv ha =>
    simp only [hv, Option.map_none, ha]
    rfl

end Courier.Json
