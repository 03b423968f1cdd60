import Courier.Numeric.Binary64

/-!
# JSON values

A JSON value as it is written: members keep the order they are given in, and a number is an integer
or a binary64 number, which differ in their text (`1` and `1.0`).
-/

namespace Courier.Json

open Courier.Numeric

/-- A JSON number. -/
inductive Number where
  /-- A whole number, written without a point. -/
  | int (n : Int)
  /-- A binary64 number, written with a point or an exponent. -/
  | float (x : Binary64)
  deriving DecidableEq, Inhabited

/-- A JSON value. -/
inductive Value where
  /-- The value `null`. -/
  | null
  /-- A truth value. -/
  | bool (b : Bool)
  /-- A number. -/
  | number (n : Number)
  /-- A text. -/
  | string (s : String)
  /-- Values in a row. -/
  | array (items : List Value)
  /-- Named values in a row. -/
  | object (members : List (String × Value))
  deriving Inhabited

namespace Value

/-- A natural number. -/
def nat (n : Nat) : Value :=
  .number (.int n)

/-- A value, or `null` for none. -/
def orNull (encode : α → Value) : Option α → Value
  | some a => encode a
  | none => .null

end Value

/-- A member of an object that is always written. -/
def member (name : String) (v : Value) : List (String × Value) :=
  [(name, v)]

/-- A member of an object that is written only if there is something to write. -/
def member? (name : String) (encode : α → Value) : Option α → List (String × Value)
  | some a => [(name, encode a)]
  | none => []

end Courier.Json
