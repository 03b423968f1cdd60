/-!
# Reading off the front of a text

A `Reader` takes something off the front of a text and gives it together with what follows, or
fails. Readers are put together in the `Option` monad, passing on the rest by hand.
-/

namespace Courier.Text

/-- Reads something off the front of a text. -/
abbrev Reader (α : Type) := List Char → Option (α × List Char)

namespace Reader

/-- A character that has to stand in front. -/
def char (c : Char) : Reader Unit
  | d :: rest => if c = d then some ((), rest) else none
  | [] => none

/-- Exactly `n` characters of a class. -/
def exactly (p : Char → Bool) (n : Nat) : Reader (List Char) := fun cs =>
  let front := cs.take n
  if front.length = n ∧ front.all p then some (front, cs.drop n) else none

/-- The longest front of characters of a class. -/
def run (p : Char → Bool) (cs : List Char) : List Char × List Char :=
  (cs.takeWhile p, cs.dropWhile p)

/-- The whole of a text, with nothing after it. -/
def whole? (r : Reader α) (cs : List Char) : Option α :=
  match r cs with
  | some (a, []) => some a
  | _ => none

end Reader

end Courier.Text
