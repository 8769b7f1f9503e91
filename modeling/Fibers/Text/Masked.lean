/-! Texts with their addresses hidden.

Where a block of memory lies differs from run to run, so a text that is compared
or kept shows every address as the same mark: `0x` and the hexadecimal digits
after it, however many and in either case, become `0x_`. The rule reads the text
alone, so it also covers what only looks like an address. -/
namespace Fibers.Text

/-- A hexadecimal digit of either case. -/
def isHexDigit (c : Char) : Bool :=
  c.isDigit || ('a' ≤ c && c ≤ 'f') || ('A' ≤ c && c ≤ 'F')

/-- Hides the addresses of a text. The flag holds while the digits of one are being
passed over; the first character that is no digit cannot start another. -/
def maskFrom : Bool → List Char → List Char
  | _, [] => []
  | true, c :: rest => if isHexDigit c then maskFrom true rest else c :: maskFrom false rest
  | false, '0' :: 'x' :: rest => '0' :: 'x' :: '_' :: maskFrom true rest
  | false, c :: rest => c :: maskFrom false rest

def masked (text : String) : String :=
  String.ofList (maskFrom false text.toList)

end Fibers.Text
