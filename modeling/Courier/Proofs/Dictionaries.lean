import Courier.Dict
import Courier.Proofs.Json.Records
import Mathlib.Data.List.Sort

/-!
# Dictionaries by what they hold

A dictionary is told by what is looked up in it (`Dict.ext_get?`): the order of its entries holds
nothing else. So what a dictionary was filled with, and not in which order, decides which it is.
-/

namespace Courier.Dict

variable {α : Type} {d e : Dict α} {key : String} {a : α}

/-- A dictionary has every name once. -/
theorem nodup_names (d : Dict α) : (d.entries.map Prod.fst).Nodup := by
  refine List.pairwise_map.2 (d.ascending.imp ?_)
  intro x y hlt heq
  exact String.lt_irrefl x.1 (heq ▸ hlt)

/-- The entries are what can be looked up. -/
theorem mem_entries_iff {x : String × α} : x ∈ d.entries ↔ d.get? x.1 = some x.2 := by
  constructor
  · exact Json.lookup_of_mem d.nodup_names
  · intro h
    obtain ⟨before, after, hentries, -⟩ := List.lookup_eq_some_iff.1 h
    exact hentries ▸ List.mem_append_right before List.mem_cons_self

end Courier.Dict
