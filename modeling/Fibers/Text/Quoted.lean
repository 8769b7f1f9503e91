import Fibers.Text.Invisible
import Fibers.Text.Combining

/-! Quoted texts.

A text is quoted for inspection: it stands between double quotes, on one line, and
every character that would not show as itself is written as an escape. The short
escapes are those for NUL, tab, carriage return, line feed, the quote and the
backslash; every other character without a visible form of its own is written by
its code point in lower-case hexadecimal between braces. -/
namespace Fibers.Text

/-- The escape of a character by its code point. -/
def escapeByCode (c : Char) : List Char :=
  '\\' :: 'u' :: '\x7b' :: (Nat.toDigits 16 c.toNat ++ ['\x7d'])

/-- One character as it stands inside a quoted text. -/
def quoteChar (c : Char) : List Char :=
  if c = '\x00' then ['\\', '0']
  else if c = '\t' then ['\\', 't']
  else if c = '\r' then ['\\', 'r']
  else if c = '\n' then ['\\', 'n']
  else if c = '"' then ['\\', '"']
  else if c = '\\' then ['\\', '\\']
  else if isCombining c || isInvisible c then escapeByCode c
  else [c]

/-- The characters of a text between quotes. -/
def quoteChars (cs : List Char) : List Char :=
  '"' :: (cs.flatMap quoteChar ++ ['"'])

def quote (text : String) : String :=
  String.ofList (quoteChars text.toList)

end Fibers.Text
