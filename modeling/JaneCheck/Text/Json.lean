/-!
# JSON text

Values with their written forms: on one line without blanks, and over lines
with an indentation of two. The members of an object keep their order. In
strings only the quote, the backslash and control characters are escaped.
-/

namespace JaneCheck.Text

inductive Json where
  | null
  | bool (value : Bool)
  | nat (value : Nat)
  | text (value : String)
  | array (elements : List Json)
  | object (members : List (String × Json))

namespace Json

/-- Two hexadecimal digits of a control character. -/
def controlDigits (n : Nat) : List Char := [Nat.digitChar (n / 16), Nat.digitChar (n % 16)]

def escaped (c : Char) : List Char :=
  if c = '"' then ['\\', '"']
  else if c = '\\' then ['\\', '\\']
  else if c = '\n' then ['\\', 'n']
  else if c = '\r' then ['\\', 'r']
  else if c = '\t' then ['\\', 't']
  else if c = Char.ofNat 8 then ['\\', 'b']
  else if c = Char.ofNat 12 then ['\\', 'f']
  else if c.toNat < 32 then ['\\', 'u', '0', '0'] ++ controlDigits c.toNat
  else [c]

def quoted (s : String) : String :=
  String.ofList ('"' :: (s.toList.flatMap escaped ++ ['"']))

mutual

/-- The form on one line. -/
def compact : Json → String
  | .null => "null"
  | .bool b => if b then "true" else "false"
  | .nat n => toString n
  | .text s => quoted s
  | .array es => "[" ++ ",".intercalate (compactAll es) ++ "]"
  | .object ms => "\x7b" ++ ",".intercalate (compactMembers ms) ++ "\x7d"

def compactAll : List Json → List String
  | [] => []
  | e :: es => e.compact :: compactAll es

def compactMembers : List (String × Json) → List String
  | [] => []
  | (k, v) :: ms => (quoted k ++ ":" ++ v.compact) :: compactMembers ms

end

/-- A line break and the indentation of a level. -/
def newline (level : Nat) : String := "\n" ++ "".pushn ' ' (2 * level)

/-- Items between brackets, each on lines of its own. -/
def enclosed (opening closing : String) (level : Nat) (items : List String) : String :=
  if items.isEmpty then opening ++ closing
  else
    opening ++ newline (level + 1) ++ ("," ++ newline (level + 1)).intercalate items ++
      newline level ++ closing

mutual

/-- The form over lines, at a level of indentation. -/
def prettyAt (level : Nat) : Json → String
  | .null => "null"
  | .bool b => if b then "true" else "false"
  | .nat n => toString n
  | .text s => quoted s
  | .array es => enclosed "[" "]" level (prettyAll (level + 1) es)
  | .object ms => enclosed "\x7b" "\x7d" level (prettyMembers (level + 1) ms)

def prettyAll (level : Nat) : List Json → List String
  | [] => []
  | e :: es => prettyAt level e :: prettyAll level es

def prettyMembers (level : Nat) : List (String × Json) → List String
  | [] => []
  | (k, v) :: ms => (quoted k ++ ": " ++ prettyAt level v) :: prettyMembers level ms

end

def pretty (j : Json) : String := prettyAt 0 j

end Json

end JaneCheck.Text
