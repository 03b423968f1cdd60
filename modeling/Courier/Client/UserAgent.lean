import Courier.Profile.Basic

/-!
# The user agent

A backend is told which program asks it, in which version and on which platform.
-/

namespace Courier.Client

/-- The version of the program. -/
def version : String := "0.0.0"

/-- The user agent of a program that calls itself `originator` on a platform. -/
def userAgent (platform : String) (originator : Option String) : String :=
  originator.getD defaultOriginator ++ "/" ++ version ++ " (" ++ platform ++ ")"

end Courier.Client
