import WordMachine.Text.Printable

/-! # Quoted text

A text stands between double quotes, with quotes and backslashes escaped, the usual
short escapes for tab, line feed, carriage return and NUL, and the hexadecimal code in
braces for every other character that does not show as itself.
-/
namespace WordMachine.Text

/-- The lower-case hexadecimal digits of a code point, without leading zeros. -/
def codeDigits (c : Char) : String := String.ofList (Nat.toDigits 16 c.toNat)

def escaped (c : Char) : String :=
  if c = '"' then "\\\""
  else if c = '\\' then "\\\\"
  else if c = '\t' then "\\t"
  else if c = '\n' then "\\n"
  else if c = '\r' then "\\r"
  else if c = '\x00' then "\\0"
  else if isPrintable c then c.toString
  else "\\u\x7b" ++ codeDigits c ++ "\x7d"

def quoted (text : String) : String :=
  "\"" ++ String.join (text.toList.map escaped) ++ "\""

end WordMachine.Text
