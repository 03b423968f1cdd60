import Courier.Config.Document
import Courier.Error
import Courier.Profile.Builtin
import Courier.Store.Tree

/-!
# Configurations

A `Config` is what a configuration file says, laid over the built-in profiles: a profile of the file
takes the place of a built-in one of the same name. The profile to use has to exist.
-/

namespace Courier

/-- A configuration. -/
structure Config where
  /-- The name of the profile to use. -/
  defaultProfile : String
  /-- All profiles by name. -/
  profiles : Dict Profile
  /-- The options of every request. -/
  request : Wire.CallOptions
  deriving DecidableEq, Inhabited

namespace Config

/-- The configuration without a file. -/
def default : Config :=
  ⟨Profile.openaiId, Profile.builtins, {}⟩

/-- The profile of a name. -/
def profile (c : Config) (id : String) : Except Error Profile :=
  match c.profiles.get? id with
  | some p => .ok p
  | none => .error (.unknownProfile id)

/-- The profile to use. -/
def activeProfile (c : Config) : Except Error Profile :=
  c.profile c.defaultProfile

/-- The profile that an entry describes, with its instructions read and trimmed. -/
def Entry.resolve (readFile : String → Except Store.Fault String) (e : Entry) :
    Except Store.Fault Profile := do
  let instructions ← match e.instructionsFile with
    | some path => readFile path
    | none => pure e.profile.instructions
  return { e.profile with instructions := Text.trim instructions }

/-- The built-in profiles with those of a document laid over them, one after the other. -/
def layOver (readFile : String → Except Store.Fault String) (entries : List (String × Entry)) :
    Except Store.Fault (Dict Profile) :=
  entries.foldlM (fun profiles e => do return profiles.insert e.1 (← e.2.resolve readFile))
    Profile.builtins

/-- The configuration that a document makes. -/
def ofDocument (readFile : String → Except Store.Fault String) (d : Document) :
    Except Error Config := do
  let profiles ← (layOver readFile d.profiles).mapError .file
  let config : Config := ⟨d.defaultProfile.getD Profile.openaiId, profiles, d.request⟩
  let _ ← config.activeProfile
  return config

/-- The configuration that the text of a file makes; `base` is where the files it names are. -/
def ofText (base : Store.Place) (s : String) : Except Error Config :=
  match Document.parse? s with
  | some d => ofDocument base.readText d
  | none => .error .configuration

/-- The name of the file. -/
def fileName : String := "config.toml"

/-- The configuration of a directory; the default one where the directory has no file. -/
def load (directory : Store.Place) : Except Error Config :=
  match directory.readText fileName with
  | .ok s => ofText directory s
  | .error .notFound => .ok default
  | .error f => .error (.file f)

/-- The directory with the configuration, inside the home directory. -/
def directoryName : String := ".responses"

/-- The configuration of a home directory. -/
def loadHome (home : Store.Place) : Except Error Config :=
  match home.step directoryName with
  | .ok directory => load directory
  | .error .notFound => .ok default
  | .error f => .error (.file f)

end Config

end Courier
