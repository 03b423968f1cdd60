import Courier.Profile.Basic
import Courier.Toml.Document
import Courier.Wire.Options

/-!
# What a configuration file says

The file names the profile to use, describes profiles, and sets options for every request. A profile
may take its instructions from a file of their own.
-/

namespace Courier.Config

open Courier.Json

/-- A profile as it is described. -/
structure Entry where
  /-- The profile. -/
  profile : Profile
  /-- The file with its instructions. -/
  instructionsFile : Option String
  deriving DecidableEq, Inhabited

/-- What a configuration file says. -/
structure Document where
  /-- The name of the profile to use. -/
  defaultProfile : Option String
  /-- The profiles by name, each name once. -/
  profiles : List (String × Entry)
  /-- The options of every request. -/
  request : Wire.CallOptions
  deriving DecidableEq, Inhabited

/-- An optional text in a table; fails where something else stands under its name. -/
def textEntry? (name : String) (table : List (String × Toml.Value)) : Option (Option String) :=
  match table.lookup name with
  | none => some none
  | some (.string s) => some (some s)
  | some _ => none

/-- The profile that a value describes. Whole numbers beyond 64 bits are refused even where nothing
is made of them. -/
def Entry.ofValue? (v : Toml.Value) : Option Entry :=
  match v with
  | .table entries =>
    if v.fitsWords then do
      let profile ← (Profile.decode Toml.dialect v.reading).toOption
      let file ← textEntry? "instructions_file" entries
      some ⟨profile, file⟩
    else none
  | _ => none

/-- The profiles that a table describes. -/
def profiles? (table : List (String × Toml.Value)) : Option (List (String × Entry)) :=
  match table.lookup "profiles" with
  | none => some []
  | some (.table entries) => entries.mapM fun e => (Entry.ofValue? e.2).map (e.1, ·)
  | some _ => none

/-- The options that a table sets. -/
def request? (table : List (String × Toml.Value)) : Option Wire.CallOptions :=
  match table.lookup "request" with
  | none => some {}
  | some v => (Wire.CallOptions.decode Toml.dialect v.reading).toOption

/-- What a table says. -/
def Document.ofTable? (table : List (String × Toml.Value)) : Option Document := do
  let defaultProfile ← textEntry? "default_profile" table
  let profiles ← profiles? table
  let request ← request? table
  some ⟨defaultProfile, profiles, request⟩

/-- What a configuration file says, if it is one. -/
def Document.parse? (s : String) : Option Document :=
  Toml.parse? s >>= Document.ofTable?

end Courier.Config
