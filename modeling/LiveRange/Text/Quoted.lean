import LiveRange.Text.Printable

/-! # Quoted text

A text between double quotes, in which a reader sees every character: the quote, the
backslash, the line breaks, the tabulator and the null character are written by an escape
of one letter, and any other character that does not show by itself by its code point. -/

namespace LiveRange.Text

/-- The code point of a character in lower-case hexadecimal, between braces. -/
def codePoint (c : Char) : String :=
  "\\u\x7b" ++ String.ofList (Nat.toDigits 16 c.toNat) ++ "\x7d"

/-- A character as it stands in quoted text. -/
def quoteChar (c : Char) : String :=
  if c = '\x00' then "\\0"
  else if c = '\t' then "\\t"
  else if c = '\r' then "\\r"
  else if c = '\n' then "\\n"
  else if c = '\\' then "\\\\"
  else if c = '"' then "\\\""
  else if isPrintable c then c.toString
  else codePoint c

def quote (s : String) : String :=
  "\"" ++ String.join (s.toList.map quoteChar) ++ "\""

end LiveRange.Text
