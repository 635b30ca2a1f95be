import JaneCheck.Syntax.Error
import JaneCheck.Decimal.Read

/-!
# Reading tokens

`Token.readAll` cuts a text into tokens. Between tokens stand blanks, line
comments and nested block comments (`skipGap`); a token is read from its first
character and the text after it (`readOne`), which says how many of the
following characters belong to it.
-/

namespace JaneCheck.Token

/-! ## Gaps -/

/-- What the reader is inside of between two tokens. A block comment knows its
nesting depth and where it opened. -/
inductive Gap where
  | blank
  | lineComment
  | blockComment (depth : Nat) (opened : Nat)

def isBlank (c : Char) : Bool := c == ' ' || c == '\t' || c == '\r' || c == '\n'

/-- Skips a gap. The result is the rest of the text and its offset, or the
offset of a block comment that is not closed. -/
def skipGap : Gap → List Char → Nat → Except Nat (List Char × Nat)
  | .blank, '/' :: '/' :: cs, i => skipGap .lineComment cs (i + 2)
  | .blank, '/' :: '*' :: cs, i => skipGap (.blockComment 0 i) cs (i + 2)
  | .blank, c :: cs, i => if isBlank c then skipGap .blank cs (i + 1) else .ok (c :: cs, i)
  | .blank, [], i => .ok ([], i)
  | .lineComment, c :: cs, i =>
    if c = '\n' then skipGap .blank cs (i + 1) else skipGap .lineComment cs (i + 1)
  | .lineComment, [], i => .ok ([], i)
  | .blockComment 0 _, '*' :: '/' :: cs, i => skipGap .blank cs (i + 2)
  | .blockComment (d + 1) o, '*' :: '/' :: cs, i => skipGap (.blockComment d o) cs (i + 2)
  | .blockComment d o, '/' :: '*' :: cs, i => skipGap (.blockComment (d + 1) o) cs (i + 2)
  | .blockComment d o, _ :: cs, i => skipGap (.blockComment d o) cs (i + 1)
  | .blockComment _ o, [], _ => .error o

theorem length_le_of_skipGap {g : Gap} {cs rest : List Char} {i j : Nat}
    (h : skipGap g cs i = .ok (rest, j)) : rest.length ≤ cs.length := by
  fun_induction skipGap g cs i <;> grind

/-! ## Numbers -/

def isDecimal (c : Char) : Bool := c.isDigit

def isHexadecimal (c : Char) : Bool :=
  c.isDigit || 'a' ≤ c && c ≤ 'f' || 'A' ≤ c && c ≤ 'F'

/-- The base that a letter after a leading zero announces. -/
def base? : Char → Option Nat
  | 'x' | 'X' => some 16
  | 'b' | 'B' => some 2
  | 'o' | 'O' => some 8
  | _ => none

/-- Digits of a base not above sixteen. -/
def isDigitOf (base : Nat) (c : Char) : Bool := isHexadecimal c && Decimal.digitValue c < base

/-- The leading run of digits and underscores. -/
def digitRun (base : Nat) (cs : List Char) : List Char :=
  cs.takeWhile fun c => isDigitOf base c || c == '_'

def withoutUnderscores (cs : List Char) : List Char := cs.filter (· != '_')

/-- A based literal saturates, also when it has no digit. -/
def basedValue (base : Nat) (digits : List Char) : UInt64 :=
  let n := Decimal.ofText base digits
  if digits.isEmpty || Nat.pow 2 64 ≤ n then (Nat.pow 2 64 - 1).toUInt64 else n.toUInt64

/-- The part of a number after its whole digits: its length, the digits of the
fraction and, when there is an `e`, the sign and the digits of the exponent. -/
structure Tail where
  length : Nat
  fraction : List Char
  exponent : Option (Bool × List Char)

/-- A point belongs to the number when a digit follows it. -/
def fraction? : List Char → Option (List Char)
  | '.' :: c :: cs => if isDecimal c then some (digitRun 10 (c :: cs)) else none
  | _ => none

/-- Sign, digits and length of what follows the `e` of an exponent. -/
def exponentAfter : List Char → Bool × List Char × Nat
  | '+' :: cs => (false, digitRun 10 cs, 1 + (digitRun 10 cs).length)
  | '-' :: cs => (true, digitRun 10 cs, 1 + (digitRun 10 cs).length)
  | cs => (false, digitRun 10 cs, (digitRun 10 cs).length)

def readTail (cs : List Char) : Tail :=
  let (fraction, skipped) := match fraction? cs with
    | some run => (run, 1 + run.length)
    | none => ([], 0)
  match cs.drop skipped with
  | c :: rest =>
    if c = 'e' ∨ c = 'E' then
      let (negative, run, n) := exponentAfter rest
      ⟨skipped + 1 + n, withoutUnderscores fraction, some (negative, withoutUnderscores run)⟩
    else ⟨skipped, withoutUnderscores fraction, none⟩
  | [] => ⟨skipped, withoutUnderscores fraction, none⟩

/-- A number with a fraction or an exponent; an exponent without digits makes
the whole literal zero. -/
def floatValue (whole : List Char) (tail : Tail) : Float :=
  let mantissa := Decimal.ofText 10 (whole ++ tail.fraction)
  let places : Int := tail.fraction.length
  match tail.exponent with
  | none => Decimal.toFloat mantissa (-places)
  | some (_, []) => 0.0
  | some (negative, digits) =>
    let e : Int := Decimal.ofText 10 digits
    Decimal.toFloat mantissa ((if negative then -e else e) - places)

/-- A whole number that fits no integer is kept as a float. -/
def wholeKind (digits : List Char) : Kind :=
  let n := Decimal.ofText 10 digits
  if n < Nat.pow 2 64 then .int n.toUInt64 else .float (Decimal.toFloat n 0)

def readDecimal (c : Char) (cs : List Char) : Kind × Nat :=
  let run := digitRun 10 cs
  let whole := withoutUnderscores (c :: run)
  let tail := readTail (cs.drop run.length)
  let isWhole := tail.length == 0
  (if isWhole then wholeKind whole else .float (floatValue whole tail), run.length + tail.length)

/-- A number whose first digit is `c`. -/
def readNumber (c : Char) : List Char → Kind × Nat
  | [] => readDecimal c []
  | d :: cs =>
    match if c = '0' then base? d else none with
    | some base =>
      let run := digitRun base cs
      (.int (basedValue base (withoutUnderscores run)), 1 + run.length)
    | none => readDecimal c (d :: cs)

/-! ## Names, texts and runes -/

/-- What a character stands for after a backslash. -/
def unescape : Char → Char
  | 'n' => '\n'
  | 'r' => '\r'
  | 't' => '\t'
  | '0' => '\x00'
  | c => c

/-- Why a token cannot be read. A text or rune that is not finished counts the
characters that were tried for it, also beyond the end. -/
inductive Fault where
  | character
  | text (tried : Nat)
  | rune (tried : Nat)

/-- The rest of a text after its opening quote: the characters it denotes and
its length with the closing quote. `n` characters were read before. -/
def readText : List Char → Nat → Except Fault (List Char × Nat)
  | [], n => .error (.text (n + 1))
  | '"' :: _, n => .ok ([], n + 1)
  | '\\' :: c :: cs, n => do
    let (value, length) ← readText cs (n + 2)
    return (unescape c :: value, length)
  | ['\\'], n => .error (.text (n + 3))
  | '\n' :: _, n => .error (.text (n + 1))
  | c :: cs, n => do
    let (value, length) ← readText cs (n + 1)
    return (c :: value, length)

/-- The rest of a rune after its opening quote, with its length. -/
def readRune : List Char → Except Fault (Char × Nat)
  | '\\' :: c :: '\'' :: _ => .ok (unescape c, 3)
  | '\\' :: _ => .error (.rune 3)
  | '\'' :: _ => .error (.rune 2)
  | '\n' :: _ => .error (.rune 2)
  | c :: '\'' :: _ => .ok (c, 2)
  | _ => .error (.rune 2)

def wordKind (word : String) : Kind :=
  match Keyword.ofText? word with
  | some k => .keyword k
  | none => .name word

/-- Reads the token that begins with `c`; the number says how many characters
of `cs` belong to it. -/
def readOne (c : Char) (cs : List Char) : Except Fault (Kind × Nat) :=
  if Text.opensName c then
    let run := cs.takeWhile Text.continuesName
    .ok (wordKind (String.ofList (c :: run)), run.length)
  else if isDecimal c then .ok (readNumber c cs)
  else if c = '"' then do
    let (value, n) ← readText cs 0
    return (.text (String.ofList value), n)
  else if c = '\'' then do
    let (value, n) ← readRune cs
    return (.rune value, n)
  else
    match Symbol.read? (c :: cs) with
    | some (chars, sym) => .ok (.symbol sym, chars.length - 1)
    | none => .error .character

def Fault.error (file start : Nat) (c : Char) : Fault → SyntaxError
  | .character => .invalidCharacter c ⟨start, start + 1, file⟩
  | .text tried => .unterminatedText ⟨start, start + 1 + tried, file⟩
  | .rune tried => .unterminatedRune ⟨start, start + 1 + tried, file⟩

/-- The tokens of the text `cs` of a file that begins at offset `i`. -/
def readFrom (file : Nat) (cs : List Char) (i : Nat) : Except SyntaxError (List Token) :=
  match h : skipGap .blank cs i with
  | .error opened => .error (.unterminatedComment ⟨opened, opened + 2, file⟩)
  | .ok ([], j) => .ok [⟨.eof, ⟨j, j, file⟩⟩]
  | .ok (c :: rest, j) =>
    match readOne c rest with
    | .error fault => .error (fault.error file j c)
    | .ok (kind, n) => do
      let tokens ← readFrom file (rest.drop n) (j + 1 + n)
      return ⟨kind, ⟨j, j + 1 + n, file⟩⟩ :: tokens
termination_by cs.length
decreasing_by
  have := length_le_of_skipGap h
  simp only [List.length_cons, List.length_drop] at *
  omega

/-- The tokens of a file, the last of which is its end. -/
def readAll (file : Nat) (text : String) : Except SyntaxError (List Token) :=
  readFrom file text.toList 0

end JaneCheck.Token
