import JaneCheck.Text.Printable

/-!
# Quoted text

Text as it is shown inside a message: between quotes, with the quote, the
backslash and the usual controls escaped by a backslash and every other
character that is not printable written as its code point in hexadecimal.
-/

namespace JaneCheck.Text

/-- A code point in lower-case hexadecimal between braces. -/
def codePoint (c : Char) : String :=
  "\\u\x7b" ++ String.ofList (Nat.toDigits 16 c.toNat) ++ "\x7d"

/-- One character of a text that is quoted by `quote`. -/
def escape (quote c : Char) : String :=
  if c = '\x00' then "\\0"
  else if c = '\t' then "\\t"
  else if c = '\r' then "\\r"
  else if c = '\n' then "\\n"
  else if c = '\\' || c = quote then String.ofList ['\\', c]
  else if isPrintable c then c.toString
  else codePoint c

def quotedBy (quote : Char) (cs : List Char) : String :=
  quote.toString ++ String.join (cs.map (escape quote)) ++ quote.toString

def quoted (s : String) : String := quotedBy '"' s.toList

def quotedRune (c : Char) : String := quotedBy '\'' [c]

end JaneCheck.Text
