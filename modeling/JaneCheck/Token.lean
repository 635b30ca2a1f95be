import JaneCheck.Source.Span
import JaneCheck.Text.Quoted
import JaneCheck.Decimal.Shortest

/-!
# Tokens

A token is a keyword, a symbol, a name, a literal or the end of the text, with
the span it was read from. `Token.Kind.shown` is how a token is named in a
message about it.
-/

namespace JaneCheck

inductive Keyword where
  | fnKw | letKw | mutKw | constKw | ifKw | elseKw | loopKw | whileKw | forKw | inKw | returnKw
  | matchKw | structKw | implKw | enumKw | traitKw | typeKw | unsafeKw | breakKw | continueKw
  | gotoKw | fallthroughKw | trueKw | falseKw | nilKw | asKw | selfKw
  deriving DecidableEq, Repr

inductive Symbol where
  | plus | minus | star | slash | percent | eq | eqEq | ne | lt | le | gt | ge | andAnd | orOr
  | bang | amp | bar | caret | tilde | shl | shr | plusEq | minusEq | starEq | slashEq
  | percentEq | ampEq | barEq | caretEq | shlEq | shrEq | plusPlus | minusMinus | fatArrow
  | arrow | dot | ellipsis | colonColon | lparen | rparen | lbrace | rbrace | lbracket
  | rbracket | comma | colon | semicolon
  deriving DecidableEq, Repr

namespace Keyword

/-- The word as it is written. -/
def text : Keyword → String
  | .fnKw => "fn"
  | .letKw => "let"
  | .mutKw => "mut"
  | .constKw => "const"
  | .ifKw => "if"
  | .elseKw => "else"
  | .loopKw => "loop"
  | .whileKw => "while"
  | .forKw => "for"
  | .inKw => "in"
  | .returnKw => "return"
  | .matchKw => "match"
  | .structKw => "struct"
  | .implKw => "impl"
  | .enumKw => "enum"
  | .traitKw => "trait"
  | .typeKw => "type"
  | .unsafeKw => "unsafe"
  | .breakKw => "break"
  | .continueKw => "continue"
  | .gotoKw => "goto"
  | .fallthroughKw => "fallthrough"
  | .trueKw => "true"
  | .falseKw => "false"
  | .nilKw => "nil"
  | .asKw => "as"
  | .selfKw => "self"

/-- How the keyword is named in messages. -/
def shown : Keyword → String
  | .fnKw => "Fn"
  | .letKw => "Let"
  | .mutKw => "Mut"
  | .constKw => "Const"
  | .ifKw => "If"
  | .elseKw => "Else"
  | .loopKw => "Loop"
  | .whileKw => "While"
  | .forKw => "For"
  | .inKw => "In"
  | .returnKw => "Return"
  | .matchKw => "Match"
  | .structKw => "Struct"
  | .implKw => "Impl"
  | .enumKw => "Enum"
  | .traitKw => "Trait"
  | .typeKw => "Type"
  | .unsafeKw => "Unsafe"
  | .breakKw => "Break"
  | .continueKw => "Continue"
  | .gotoKw => "Goto"
  | .fallthroughKw => "Fallthrough"
  | .trueKw => "True"
  | .falseKw => "False"
  | .nilKw => "Nil"
  | .asKw => "As"
  | .selfKw => "SelfKw"

def all : List Keyword :=
  [.fnKw, .letKw, .mutKw, .constKw, .ifKw, .elseKw, .loopKw, .whileKw, .forKw, .inKw,
   .returnKw, .matchKw, .structKw, .implKw, .enumKw, .traitKw, .typeKw, .unsafeKw, .breakKw,
   .continueKw, .gotoKw, .fallthroughKw, .trueKw, .falseKw, .nilKw, .asKw, .selfKw]

/-- The keyword that a word is, if it is one. -/
def ofText? (word : String) : Option Keyword := all.find? (·.text == word)

end Keyword

namespace Symbol

/-- The characters of the symbol. -/
def text : Symbol → String
  | .plus => "+"
  | .minus => "-"
  | .star => "*"
  | .slash => "/"
  | .percent => "%"
  | .eq => "="
  | .eqEq => "=="
  | .ne => "!="
  | .lt => "<"
  | .le => "<="
  | .gt => ">"
  | .ge => ">="
  | .andAnd => "&&"
  | .orOr => "||"
  | .bang => "!"
  | .amp => "&"
  | .bar => "|"
  | .caret => "^"
  | .tilde => "~"
  | .shl => "<<"
  | .shr => ">>"
  | .plusEq => "+="
  | .minusEq => "-="
  | .starEq => "*="
  | .slashEq => "/="
  | .percentEq => "%="
  | .ampEq => "&="
  | .barEq => "|="
  | .caretEq => "^="
  | .shlEq => "<<="
  | .shrEq => ">>="
  | .plusPlus => "++"
  | .minusMinus => "--"
  | .fatArrow => "=>"
  | .arrow => "->"
  | .dot => "."
  | .ellipsis => "..."
  | .colonColon => "::"
  | .lparen => "("
  | .rparen => ")"
  | .lbrace => "\x7b"
  | .rbrace => "\x7d"
  | .lbracket => "["
  | .rbracket => "]"
  | .comma => ","
  | .colon => ":"
  | .semicolon => ";"

/-- How the symbol is named in messages. -/
def shown : Symbol → String
  | .plus => "Plus"
  | .minus => "Minus"
  | .star => "Star"
  | .slash => "Slash"
  | .percent => "Percent"
  | .eq => "Eq"
  | .eqEq => "EqEq"
  | .ne => "Ne"
  | .lt => "Lt"
  | .le => "Le"
  | .gt => "Gt"
  | .ge => "Ge"
  | .andAnd => "AndAnd"
  | .orOr => "OrOr"
  | .bang => "Not"
  | .amp => "And"
  | .bar => "Or"
  | .caret => "Caret"
  | .tilde => "Tilde"
  | .shl => "Shl"
  | .shr => "Shr"
  | .plusEq => "PlusEq"
  | .minusEq => "MinusEq"
  | .starEq => "StarEq"
  | .slashEq => "SlashEq"
  | .percentEq => "PercentEq"
  | .ampEq => "AndEq"
  | .barEq => "OrEq"
  | .caretEq => "CaretEq"
  | .shlEq => "ShlEq"
  | .shrEq => "ShrEq"
  | .plusPlus => "PlusPlus"
  | .minusMinus => "MinusMinus"
  | .fatArrow => "FatArrow"
  | .arrow => "Arrow"
  | .dot => "Dot"
  | .ellipsis => "DotDotDot"
  | .colonColon => "ColonColon"
  | .lparen => "LParen"
  | .rparen => "RParen"
  | .lbrace => "LBrace"
  | .rbrace => "RBrace"
  | .lbracket => "LBracket"
  | .rbracket => "RBracket"
  | .comma => "Comma"
  | .colon => "Colon"
  | .semicolon => "Semicolon"

/-- All symbols, longer ones first, so that the first that a text begins with is
the longest. -/
def all : List Symbol :=
  [.shlEq, .shrEq, .ellipsis, .eqEq, .ne, .le, .ge, .andAnd, .orOr, .shl, .shr, .plusEq,
   .minusEq, .starEq, .slashEq, .percentEq, .ampEq, .barEq, .caretEq, .plusPlus, .minusMinus,
   .fatArrow, .arrow, .colonColon, .plus, .minus, .star, .slash, .percent, .eq, .lt, .gt,
   .bang, .amp, .bar, .caret, .tilde, .dot, .lparen, .rparen, .lbrace, .rbrace, .lbracket,
   .rbracket, .comma, .colon, .semicolon]

/-- Symbols with their characters. -/
def table : List (List Char × Symbol) := all.map fun s => (s.text.toList, s)

/-- The longest symbol that `cs` begins with. -/
def read? (cs : List Char) : Option (List Char × Symbol) :=
  table.find? fun entry => entry.1.isPrefixOf cs

end Symbol

namespace Token

inductive Kind where
  | name (text : String)
  | int (value : UInt64)
  | float (value : Float)
  | text (value : String)
  | rune (value : Char)
  | keyword (word : Keyword)
  | symbol (sym : Symbol)
  | eof
  deriving Repr, Inhabited

namespace Kind

/-- The text by which a message refers to a token. -/
def shown : Kind → String
  | .name s => "Ident(" ++ Text.quoted s ++ ")"
  | .int n => "IntLit(" ++ toString n.toNat ++ ")"
  | .float x => "FloatLit(" ++ Decimal.text x ++ ")"
  | .text s => "StringLit(" ++ Text.quoted s ++ ")"
  | .rune c => "CharLit(" ++ Text.quotedRune c ++ ")"
  | .keyword k => k.shown
  | .symbol s => s.shown
  | .eof => "Eof"

def isKeyword (k : Keyword) : Kind → Bool
  | .keyword k' => k == k'
  | _ => false

def isSymbol (s : Symbol) : Kind → Bool
  | .symbol s' => s == s'
  | _ => false

def isName : Kind → Bool
  | .name _ => true
  | _ => false

def isEof : Kind → Bool
  | .eof => true
  | _ => false

end Kind

end Token

structure Token where
  kind : Token.Kind
  span : Span
  deriving Repr, Inhabited

end JaneCheck
