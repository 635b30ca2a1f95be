import JaneCheck.Token

/-!
# Errors of the text

What makes a file unusable. A file with such an error takes no further part in
the check of its package.
-/

namespace JaneCheck

inductive SyntaxError where
  | invalidCharacter (c : Char) (span : Span)
  | unterminatedText (span : Span)
  | unterminatedRune (span : Span)
  | unterminatedComment (span : Span)
  | unexpected (expected : String) (found : Token.Kind) (span : Span)
  | expectedName (span : Span)
  | expectedType (span : Span)
  | expectedExpr (span : Span)
  deriving Repr, Inhabited

namespace SyntaxError

def span : SyntaxError → Span
  | .invalidCharacter _ s | .unterminatedText s | .unterminatedRune s
  | .unterminatedComment s | .unexpected _ _ s | .expectedName s | .expectedType s
  | .expectedExpr s => s

def message : SyntaxError → String
  | .invalidCharacter c _ => "undefined code content: " ++ c.toString
  | .unterminatedText _ => "string is not finished"
  | .unterminatedRune _ => "rune is not finished"
  | .unterminatedComment _ => "missing block comment close"
  | .unexpected expected found _ =>
    "invalid syntax: expected " ++ expected ++ ", got " ++ found.shown
  | .expectedName _ => "expected identifier"
  | .expectedType _ => "expected data-type"
  | .expectedExpr _ => "expected expression"

end SyntaxError

end JaneCheck
