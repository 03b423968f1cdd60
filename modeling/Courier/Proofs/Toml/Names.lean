import Courier.Proofs.Json.Records
import Courier.Toml.Document

/-!
# Names in a TOML document

A document that says something twice is refused. So every table in a document that is read has
every name once (**`Toml.namesOnce_of_lookup`**), whether it was put together from headers and
dotted keys or written as a value. One level is followed here, `Orderly`: the names that a
configuration file gives away stand no deeper.

Whatever is added to a table in the making goes through `putEntry`, which is where the invariant is
kept.
-/

namespace Courier.Toml

open Courier.Text

/-- Every name stands once. -/
def NamesOnce {α : Type} (entries : List (String × α)) : Prop :=
  (entries.map Prod.fst).Nodup

/-- A value that is a table has every name once. -/
def Value.NamesOnce : Value → Prop
  | .table entries => Toml.NamesOnce entries
  | _ => True

/-- What stands under a name has, if it is a table, every name once. -/
def Entry.NamesOnce (e : Entry) : Prop :=
  e.value?.NamesOnce

/-- The tables in a table have every name once. -/
def Orderly (es : Entries) : Prop :=
  ∀ e ∈ es, e.2.NamesOnce

variable {key : String} {e : Entry} {es es' : Entries} {v : Value} {path : List String}
  {own : Bool}

/-- Without entries no name stands twice. -/
theorem namesOnce_nil {α : Type} : NamesOnce ([] : List (String × α)) :=
  List.nodup_nil

/-- Without entries there are no tables. -/
theorem orderly_nil : Orderly [] :=
  fun _ h => absurd h List.not_mem_nil

/-- An entry that is a value is what the value is. -/
theorem namesOnce_value_iff : (Entry.value v).NamesOnce ↔ v.NamesOnce :=
  Iff.rfl

/-! ## Putting entries -/

/-- Nothing is there but what is put in and what was there before. -/
theorem mem_putEntry {x : String × Entry} (h : x ∈ putEntry key e es) : x = (key, e) ∨ x ∈ es := by
  induction es with
  | nil => exact Or.inl (List.mem_singleton.1 h)
  | cons y es ih =>
    rw [putEntry] at h
    by_cases hkey : key = y.1
    · rw [if_pos hkey] at h
      exact (List.mem_cons.1 h).imp_right (List.mem_cons_of_mem _)
    · rw [if_neg hkey] at h
      obtain h | h := List.mem_cons.1 h
      · exact Or.inr (h ▸ List.mem_cons_self)
      · exact (ih h).imp_right (List.mem_cons_of_mem _)

/-- **An entry takes the place of what has its name**, so every name still stands once. -/
theorem NamesOnce.putEntry (h : NamesOnce es) (key : String) (e : Entry) :
    NamesOnce (putEntry key e es) := by
  induction es with
  | nil => exact List.nodup_cons.2 ⟨List.not_mem_nil, List.nodup_nil⟩
  | cons y es ih =>
    obtain ⟨hnew, hrest⟩ := List.nodup_cons.1 h
    rw [Toml.putEntry]
    by_cases hkey : key = y.1
    · rw [if_pos hkey]
      exact List.nodup_cons.2 ⟨hkey ▸ hnew, hrest⟩
    · rw [if_neg hkey]
      refine List.nodup_cons.2 ⟨fun hmem => ?_, ih hrest⟩
      obtain ⟨x, hx, hname⟩ := List.mem_map.1 hmem
      obtain rfl | hx := mem_putEntry hx
      · exact hkey hname
      · exact hnew (hname ▸ List.mem_map_of_mem hx)

/-- What is put in is in order if it is itself. -/
theorem Orderly.putEntry (h : Orderly es) (he : e.NamesOnce) (key : String) :
    Orderly (putEntry key e es) := by
  intro x hx
  obtain rfl | hx := mem_putEntry hx
  · exact he
  · exact h x hx

/-! ## Values of tables -/

/-- The values of a table are those of its entries, one by one. -/
theorem entryValues_eq (es : Entries) : entryValues es = es.map fun e => (e.1, e.2.value?) := by
  induction es with
  | nil => rfl
  | cons e es ih => rw [entryValues, ih, List.map_cons]

/-- The values stand under the names of the entries. -/
theorem namesOnce_entryValues_iff : NamesOnce (entryValues es) ↔ NamesOnce es := by
  rw [NamesOnce, entryValues_eq, List.map_map]
  rfl

/-- An entry that is a table has every name once if its entries have. -/
theorem namesOnce_table_iff {origin : Origin} : (Entry.table origin es).NamesOnce ↔ NamesOnce es :=
  namesOnce_entryValues_iff

/-- An entry that is a row of tables is no table. -/
theorem namesOnce_tables {rows : List Entries} : (Entry.tables rows).NamesOnce :=
  trivial

/-- The table under a name has every name once. -/
theorem Orderly.lookup {origin : Origin} {inner : Entries} (h : Orderly es)
    (hkey : es.lookup key = some (.table origin inner)) : NamesOnce inner := by
  obtain ⟨before, after, hes, -⟩ := List.lookup_eq_some_iff.1 hkey
  have hmem : (key, Entry.table origin inner) ∈ es :=
    hes ▸ List.mem_append_right before List.mem_cons_self
  exact namesOnce_table_iff.1 (h _ hmem)

/-! ## Adding to a table -/

/-- Adding an entry puts something under the first of its keys. -/
theorem exists_of_addEntry (h : addEntry v own path es = some es') :
    ∃ key e, es' = putEntry key e es := by
  unfold addEntry at h
  split at h
  · cases h
  · split at h
    · exact ⟨_, _, (Option.some.inj h).symm⟩
    · cases h
  · split at h
    · obtain ⟨inner, -, rfl⟩ := Option.map_eq_some_iff.1 h
      exact ⟨_, _, rfl⟩
    · split at h
      · cases h
      · obtain ⟨inner, -, rfl⟩ := Option.map_eq_some_iff.1 h
        exact ⟨_, _, rfl⟩
    · obtain ⟨last, -, rfl⟩ := Option.map_eq_some_iff.1 h
      exact ⟨_, _, rfl⟩
    · cases h
    · cases h

/-- A table keeps every name once when something is added to it. -/
theorem NamesOnce.addEntry (hes : NamesOnce es) (h : addEntry v own path es = some es') :
    NamesOnce es' := by
  obtain ⟨key, e, rfl⟩ := exists_of_addEntry h
  exact hes.putEntry key e

/-- The tables in it do so, too, wherever something is added. -/
theorem Orderly.addEntry (hes : Orderly es) (hv : v.NamesOnce)
    (h : addEntry v own path es = some es') : Orderly es' := by
  unfold Toml.addEntry at h
  split at h
  · cases h
  · split at h
    · obtain rfl := Option.some.inj h
      exact hes.putEntry (namesOnce_value_iff.2 hv) _
    · cases h
  · split at h
    · obtain ⟨inner, hinner, rfl⟩ := Option.map_eq_some_iff.1 h
      exact hes.putEntry (namesOnce_table_iff.2 (NamesOnce.addEntry namesOnce_nil hinner)) _
    · next hkey =>
      split at h
      · cases h
      · obtain ⟨inner, hinner, rfl⟩ := Option.map_eq_some_iff.1 h
        exact hes.putEntry (namesOnce_table_iff.2 ((hes.lookup hkey).addEntry hinner)) _
    · obtain ⟨last, -, rfl⟩ := Option.map_eq_some_iff.1 h
      exact hes.putEntry namesOnce_tables _
    · cases h
    · cases h

/-- A table that a header's keys pass through, or lead to, keeps every name once if its change
does. -/
theorem NamesOnce.within {f : Entries → Option Entries}
    (hf : ∀ {es es' : Entries}, NamesOnce es → f es = some es' → NamesOnce es')
    (hes : NamesOnce es) (h : within f path es = some es') : NamesOnce es' := by
  unfold Toml.within at h
  split at h
  · exact hf hes h
  · split at h
    · obtain ⟨inner, -, rfl⟩ := Option.map_eq_some_iff.1 h
      exact hes.putEntry _ _
    · obtain ⟨inner, -, rfl⟩ := Option.map_eq_some_iff.1 h
      exact hes.putEntry _ _
    · obtain ⟨last, -, rfl⟩ := Option.map_eq_some_iff.1 h
      exact hes.putEntry _ _
    · cases h
    · cases h

/-- The tables in it are in order if the change keeps that. -/
theorem Orderly.within {f : Entries → Option Entries}
    (hnames : ∀ {es es' : Entries}, NamesOnce es → f es = some es' → NamesOnce es')
    (hf : ∀ {es es' : Entries}, Orderly es → f es = some es' → Orderly es')
    (hes : Orderly es) (h : within f path es = some es') : Orderly es' := by
  unfold Toml.within at h
  split at h
  · exact hf hes h
  · split at h
    · obtain ⟨inner, hinner, rfl⟩ := Option.map_eq_some_iff.1 h
      exact hes.putEntry (namesOnce_table_iff.2 (NamesOnce.within hnames namesOnce_nil hinner)) _
    · next hkey =>
      obtain ⟨inner, hinner, rfl⟩ := Option.map_eq_some_iff.1 h
      have hinner := NamesOnce.within hnames (hes.lookup hkey) hinner
      exact hes.putEntry (namesOnce_table_iff.2 hinner) _
    · obtain ⟨last, -, rfl⟩ := Option.map_eq_some_iff.1 h
      exact hes.putEntry namesOnce_tables _
    · cases h
    · cases h

/-- A header of a table keeps what is there and adds one name at most. -/
theorem NamesOnce.openTable (hes : NamesOnce es) (h : openTable key es = some es') :
    NamesOnce es' := by
  unfold Toml.openTable at h
  split at h
  · exact Option.some.inj h ▸ hes.putEntry _ _
  · exact Option.some.inj h ▸ hes.putEntry _ _
  · cases h

/-- The table that it opens is empty, or one that was there. -/
theorem Orderly.openTable (hes : Orderly es) (h : openTable key es = some es') : Orderly es' := by
  unfold Toml.openTable at h
  split at h
  · exact Option.some.inj h ▸ hes.putEntry (namesOnce_table_iff.2 namesOnce_nil) _
  · next hkey =>
    exact Option.some.inj h ▸ hes.putEntry (namesOnce_table_iff.2 (hes.lookup hkey)) _
  · cases h

/-- A header of a row of tables adds one name at most, too. -/
theorem NamesOnce.openRow (hes : NamesOnce es) (h : openRow key es = some es') :
    NamesOnce es' := by
  unfold Toml.openRow at h
  split at h
  · exact Option.some.inj h ▸ hes.putEntry _ _
  · exact Option.some.inj h ▸ hes.putEntry _ _
  · cases h

/-- It opens no table but in a row. -/
theorem Orderly.openRow (hes : Orderly es) (h : openRow key es = some es') : Orderly es' := by
  unfold Toml.openRow at h
  split at h
  · exact Option.some.inj h ▸ hes.putEntry namesOnce_tables _
  · exact Option.some.inj h ▸ hes.putEntry namesOnce_tables _
  · cases h

/-! ## Reading -/

variable {fuel depth : Nat} {cs rest : List Char}

/-- What is written between braces has every name once if what stands before it has. -/
theorem NamesOnce.readEntries (hes : NamesOnce es)
    (h : readEntries fuel depth es cs = some (es', rest)) : NamesOnce es' := by
  induction fuel generalizing es cs with
  | zero => cases h
  | succ fuel ih =>
    rw [Toml.readEntries] at h
    obtain ⟨⟨path, _⟩, -, h⟩ := Option.bind_eq_some_iff.1 h
    obtain ⟨⟨⟨⟩, _⟩, -, h⟩ := Option.bind_eq_some_iff.1 h
    obtain ⟨⟨v, _⟩, -, h⟩ := Option.bind_eq_some_iff.1 h
    obtain ⟨added, hadded, h⟩ := Option.bind_eq_some_iff.1 h
    split at h
    · obtain ⟨rfl, -⟩ := Prod.mk.inj (Option.some.inj h)
      exact hes.addEntry hadded
    · exact ih (hes.addEntry hadded) h
    · cases h

/-- A value that is neither a table nor a row is none. -/
theorem namesOnce_of_scalar? (h : scalar? cs = some v) : v.NamesOnce := by
  unfold scalar? at h
  split at h
  · exact Option.some.inj h ▸ trivial
  · split at h
    · exact Option.some.inj h ▸ trivial
    · -- whole numbers, other numbers, dates and times
      obtain h | ⟨-, h⟩ := Option.or_eq_some_iff.1 h
      · obtain h | ⟨-, h⟩ := Option.or_eq_some_iff.1 h
        · obtain ⟨n, -, rfl⟩ := Option.map_eq_some_iff.1 h
          trivial
        · obtain ⟨x, -, rfl⟩ := Option.map_eq_some_iff.1 h
          trivial
      · obtain ⟨text, -, rfl⟩ := Option.map_eq_some_iff.1 h
        trivial

/-- A value that is written as a table has every name once. -/
theorem namesOnce_of_readValue (h : readValue fuel depth cs = some (v, rest)) : v.NamesOnce := by
  match fuel with
  | 0 => cases h
  | fuel + 1 =>
    unfold readValue at h
    split at h
    · dsimp only at h
      split at h
      · cases h
      · obtain ⟨_, -, h⟩ := Option.bind_eq_some_iff.1 h
        obtain ⟨⟨items, _⟩, -, h⟩ := Option.bind_eq_some_iff.1 h
        exact (Prod.mk.inj (Option.some.inj h)).1 ▸ trivial
    · dsimp only at h
      split at h
      · cases h
      · split at h
        · exact (Prod.mk.inj (Option.some.inj h)).1 ▸ namesOnce_nil
        · obtain ⟨⟨entries, _⟩, hentries, h⟩ := Option.bind_eq_some_iff.1 h
          exact (Prod.mk.inj (Option.some.inj h)).1 ▸
            namesOnce_entryValues_iff.2 (namesOnce_nil.readEntries hentries)
    · obtain ⟨text, -, hv⟩ := Option.map_eq_some_iff.1 h
      exact (Prod.mk.inj hv).1 ▸ trivial
    · obtain ⟨text, -, hv⟩ := Option.map_eq_some_iff.1 h
      exact (Prod.mk.inj hv).1 ▸ trivial
    · obtain ⟨w, hw, hv⟩ := Option.map_eq_some_iff.1 h
      exact (Prod.mk.inj hv).1 ▸ namesOnce_of_scalar? hw

/-! ## Documents -/

/-- The value of an entry has, if it is a table, every name once. -/
def Statement.NamesOnce : Statement → Prop
  | .entry _ v => v.NamesOnce
  | _ => True

variable {st : Statement} {p p' : Progress} {s : String} {table : List (String × Value)}

/-- A statement has a value that is in order. -/
theorem namesOnce_of_readStatement (h : readStatement cs = some (st, rest)) : st.NamesOnce := by
  unfold readStatement at h
  split at h
  · obtain ⟨⟨path, _⟩, -, h⟩ := Option.bind_eq_some_iff.1 h
    obtain ⟨⟨⟨⟩, _⟩, -, h⟩ := Option.bind_eq_some_iff.1 h
    obtain ⟨⟨⟨⟩, _⟩, -, h⟩ := Option.bind_eq_some_iff.1 h
    exact (Prod.mk.inj (Option.some.inj h)).1 ▸ trivial
  · obtain ⟨⟨path, _⟩, -, h⟩ := Option.bind_eq_some_iff.1 h
    obtain ⟨⟨⟨⟩, _⟩, -, h⟩ := Option.bind_eq_some_iff.1 h
    exact (Prod.mk.inj (Option.some.inj h)).1 ▸ trivial
  · obtain ⟨⟨path, _⟩, -, h⟩ := Option.bind_eq_some_iff.1 h
    obtain ⟨⟨⟨⟩, _⟩, -, h⟩ := Option.bind_eq_some_iff.1 h
    obtain ⟨⟨v, _⟩, hv, h⟩ := Option.bind_eq_some_iff.1 h
    exact (Prod.mk.inj (Option.some.inj h)).1 ▸ namesOnce_of_readValue hv

/-- So have all statements of a document. -/
theorem namesOnce_of_statements? {sts : List Statement} (h : statements? fuel cs = some sts) :
    ∀ st ∈ sts, st.NamesOnce := by
  induction fuel generalizing cs sts with
  | zero => cases h
  | succ fuel ih =>
    rw [statements?] at h
    obtain ⟨cs, -, h⟩ := Option.bind_eq_some_iff.1 h
    split at h
    · exact Option.some.inj h ▸ fun _ hmem => absurd hmem List.not_mem_nil
    · obtain ⟨⟨first, _⟩, hfirst, h⟩ := Option.bind_eq_some_iff.1 h
      obtain ⟨_, -, h⟩ := Option.bind_eq_some_iff.1 h
      obtain ⟨others, hothers, rfl⟩ := Option.map_eq_some_iff.1 h
      exact List.forall_mem_cons.2 ⟨namesOnce_of_readStatement hfirst, ih hothers⟩

/-- A statement that is taken in leaves the tables in order. -/
theorem Orderly.add (hp : Orderly p.entries) (hst : st.NamesOnce) (h : p.add st = some p') :
    Orderly p'.entries := by
  cases st with
  | table path =>
    obtain ⟨key, -, h⟩ := Option.bind_eq_some_iff.1 h
    obtain ⟨entries, hentries, h⟩ := Option.bind_eq_some_iff.1 h
    exact Option.some.inj h ▸ hp.within NamesOnce.openTable Orderly.openTable hentries
  | row path =>
    obtain ⟨key, -, h⟩ := Option.bind_eq_some_iff.1 h
    obtain ⟨entries, hentries, h⟩ := Option.bind_eq_some_iff.1 h
    exact Option.some.inj h ▸ hp.within NamesOnce.openRow Orderly.openRow hentries
  | entry path v =>
    obtain ⟨entries, hentries, h⟩ := Option.bind_eq_some_iff.1 h
    exact Option.some.inj h ▸ hp.within (fun hes => NamesOnce.addEntry hes)
      (fun hes => Orderly.addEntry hes hst) hentries

/-- Statements that are taken in one after the other leave the tables in order. -/
theorem Orderly.foldlM_add {sts : List Statement} (hp : Orderly p.entries)
    (hsts : ∀ st ∈ sts, st.NamesOnce) (h : sts.foldlM Progress.add p = some p') :
    Orderly p'.entries := by
  induction sts generalizing p with
  | nil => exact Option.some.inj h ▸ hp
  | cons st sts ih =>
    obtain ⟨hst, hsts⟩ := List.forall_mem_cons.1 hsts
    obtain ⟨next, hnext, h⟩ := Option.bind_eq_some_iff.1 h
    exact ih (hp.add hst hnext) hsts h

/-- The table of a document comes from tables that are in order. -/
theorem exists_of_parse? (h : parse? s = some table) :
    ∃ es, Orderly es ∧ table = entryValues es := by
  obtain ⟨sts, hsts, h⟩ := Option.bind_eq_some_iff.1 h
  obtain ⟨p, hp, h⟩ := Option.bind_eq_some_iff.1 h
  exact ⟨p.entries, orderly_nil.foldlM_add (namesOnce_of_statements? hsts) hp,
    (Option.some.inj h).symm⟩

/-- **Every table in a document has every name once.** -/
theorem namesOnce_of_lookup {inner : List (String × Value)} (h : parse? s = some table)
    (hkey : table.lookup key = some (.table inner)) : NamesOnce inner := by
  obtain ⟨es, hes, rfl⟩ := exists_of_parse? h
  rw [entryValues_eq, Json.lookup_map] at hkey
  obtain ⟨e, he, hvalue⟩ := Option.map_eq_some_iff.1 hkey
  obtain ⟨before, after, hsplit, -⟩ := List.lookup_eq_some_iff.1 he
  have hinner : e.NamesOnce :=
    hes (key, e) (hsplit ▸ List.mem_append_right before List.mem_cons_self)
  rw [Entry.NamesOnce, hvalue] at hinner
  exact hinner

end Courier.Toml
