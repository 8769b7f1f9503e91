import Fibers.Word
import Fibers.Text.Blank

/-! Sizes written as text.

A size is a positive number of bytes that fits a 64-bit word. Its written form is
a row of ASCII decimal digits, possibly after a single plus sign, with any white
space around it. -/
namespace Fibers.Text

/-- The number that a non-empty row of decimal digits stands for. -/
def decimal? (cs : List Char) : Option Nat :=
  if cs ≠ [] ∧ cs.all Char.isDigit then some (Nat.ofDigitChars 10 cs 0) else none

/-- The characters after a leading plus sign, if there is one. -/
def dropSign : List Char → List Char
  | '+' :: rest => rest
  | cs => cs

/-- The size a text is read as. -/
def size? (text : String) : Option Nat :=
  (decimal? (dropSign (trim text.toList))).filter fun n => 0 < n && n < Word.bound

end Fibers.Text
