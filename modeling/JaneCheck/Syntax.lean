import JaneCheck.Source.Span

/-!
# Syntax trees

The items of a source file with their statements, expressions and type
expressions. Every node that a message can point at carries its span. Types are
kept as written here; resolving them is a matter of the checker.
-/

namespace JaneCheck.Syntax

structure Ident where
  name : String
  span : Span
  deriving DecidableEq, Repr, Inhabited

/-! ## Operators -/

inductive BinOp where
  | add | sub | mul | div | mod
  | eq | ne | lt | le | gt | ge
  | and | or
  | bitAnd | bitOr | bitXor | shl | shr
  deriving DecidableEq, Repr

namespace BinOp

def symbol : BinOp → String
  | .add => "+"
  | .sub => "-"
  | .mul => "*"
  | .div => "/"
  | .mod => "%"
  | .eq => "=="
  | .ne => "!="
  | .lt => "<"
  | .le => "<="
  | .gt => ">"
  | .ge => ">="
  | .and => "&&"
  | .or => "||"
  | .bitAnd => "&"
  | .bitOr => "|"
  | .bitXor => "^"
  | .shl => "<<"
  | .shr => ">>"

def isComparison : BinOp → Bool
  | .eq | .ne | .lt | .le | .gt | .ge => true
  | _ => false

end BinOp

inductive UnOp where
  | neg | plus | not | bitNot | deref | addressOf
  deriving DecidableEq, Repr

def UnOp.symbol : UnOp → String
  | .neg => "-"
  | .plus => "+"
  | .not => "!"
  | .bitNot => "~"
  | .deref => "*"
  | .addressOf => "&"

/-! ## Expressions and types -/

inductive Literal where
  | int (value : UInt64)
  | float (value : Float)
  | text (value : String)
  | rune (value : Char)
  | bool (value : Bool)
  | nil
  deriving Repr, Inhabited

/-- An argument of a call or of a struct literal, perhaps aimed at a name. -/
structure Argument (ε : Type) where
  name : Option Ident
  value : ε
  span : Span

mutual

/-- A type as it is written. An array without a size takes the size of its
value; `rawPointer` is the pointer to memory of no type. -/
inductive TypeExpr where
  | named (name : Ident) (generics : List TypeExpr) (span : Span)
  | pointer (target : TypeExpr) (span : Span)
  | reference (target : TypeExpr) (span : Span)
  | rawPointer (span : Span)
  | slice (element : TypeExpr) (span : Span)
  | array (size : Option Expr) (element : TypeExpr) (span : Span)
  | map (key value : TypeExpr) (span : Span)
  | function (params : List TypeExpr) (variadic : Bool) (result : Option TypeExpr) (span : Span)
  | tuple (components : List TypeExpr) (span : Span)

/-- Expressions. `generic` is a name with explicit type arguments and `spread`
hands the elements of a slice to a variadic parameter. -/
inductive Expr where
  | literal (value : Literal) (span : Span)
  | ident (name : Ident)
  | generic (name : Ident) (generics : List TypeExpr) (span : Span)
  | binary (op : BinOp) (left right : Expr) (span : Span)
  | unary (op : UnOp) (operand : Expr) (span : Span)
  | call (callee : Expr) (args : List (Argument Expr)) (span : Span)
  | field (base : Expr) (name : Ident) (span : Span)
  | index (base index : Expr) (span : Span)
  | structLit (name : Ident) (generics : List TypeExpr) (args : List (Argument Expr)) (span : Span)
  | array (elements : List Expr) (span : Span)
  | cast (operand : Expr) (target : TypeExpr) (span : Span)
  | spread (operand : Expr) (span : Span)

end

instance : Inhabited TypeExpr := ⟨.rawPointer default⟩

instance : Inhabited Expr := ⟨.literal .nil default⟩

abbrev Arg := Argument Expr

def TypeExpr.span : TypeExpr → Span
  | .named _ _ s | .pointer _ s | .reference _ s | .rawPointer s | .slice _ s
  | .array _ _ s | .map _ _ s | .function _ _ _ s | .tuple _ s => s

def Expr.span : Expr → Span
  | .literal _ s | .generic _ _ s | .binary _ _ _ s | .unary _ _ s | .call _ _ s
  | .field _ _ s | .index _ _ s | .structLit _ _ _ s | .array _ s | .cast _ _ s
  | .spread _ s => s
  | .ident name => name.span

def Expr.isSpread : Expr → Bool
  | .spread _ _ => true
  | _ => false

/-! ## Statements -/

structure TypeAlias where
  name : Ident
  target : TypeExpr
  span : Span

/-- A name of a declaration of several. -/
structure LetName where
  name : Ident
  mutable : Bool

inductive LoopKind where
  | forever
  | whileTrue (cond : Expr)
  | forEach (vars : List Ident) (subject : Expr)

structure Block (σ : Type) where
  stmts : List σ
  isUnsafe : Bool
  span : Span

/-- An arm of an `if`. -/
structure Branch (σ : Type) where
  cond : Expr
  body : Block σ

/-- An arm of a `match`; the default arm has no expressions. -/
structure Case (σ : Type) where
  exprs : List Expr
  body : Block σ
  span : Span

inductive Stmt where
  | declare (name : Ident) (mutable constant : Bool) (type : Option TypeExpr)
      (value : Option Expr) (span : Span)
  | declareMany (names : List LetName) (values : List Expr) (span : Span)
  | assign (targets : List Expr) (op : Option BinOp) (values : List Expr) (span : Span)
  | step (target : Expr) (increment : Bool) (span : Span)
  | expr (value : Expr)
  | ret (values : List Expr) (span : Span)
  | branch (branches : List (Branch Stmt)) (otherwise : Option (Block Stmt)) (span : Span)
  | loop (kind : LoopKind) (body : Block Stmt) (span : Span)
  | select (subject : Option Expr) (cases : List (Case Stmt)) (otherwise : Option (Case Stmt))
      (span : Span)
  | leave (label : Option Ident) (span : Span)
  | again (label : Option Ident) (span : Span)
  | goto (label : Ident) (span : Span)
  | label (name : Ident) (span : Span)
  | fallthrough (span : Span)
  | block (body : Block Stmt)
  | typeAlias (def_ : TypeAlias)

instance : Inhabited Stmt := ⟨.fallthrough default⟩

abbrev Body := Block Stmt

def Stmt.span : Stmt → Span
  | .declare _ _ _ _ _ s | .declareMany _ _ s | .assign _ _ _ s | .step _ _ s | .ret _ s
  | .branch _ _ s | .loop _ _ s | .select _ _ _ s | .leave _ s | .again _ s | .goto _ s
  | .label _ s | .fallthrough s => s
  | .expr e => e.span
  | .block b => b.span
  | .typeAlias a => a.span

/-! ## Items -/

structure Receiver where
  byRef : Bool
  span : Span
  deriving DecidableEq, Repr, Inhabited

structure Param where
  name : Ident
  type : TypeExpr
  mutable : Bool
  variadic : Bool
  default : Option Expr
  span : Span

/-- The declared result of a function; named results have one name per
component. -/
structure ReturnType where
  type : Option TypeExpr
  names : List Ident

structure Function where
  name : Ident
  isUnsafe : Bool
  generics : List Ident
  receiver : Option Receiver
  params : List Param
  ret : ReturnType
  body : Body
  span : Span

structure Field where
  name : Ident
  type : TypeExpr
  default : Option Expr
  span : Span

structure StructDef where
  name : Ident
  generics : List Ident
  fields : List Field
  span : Span

structure EnumItem where
  name : Ident
  value : Option Expr
  span : Span

structure EnumDef where
  name : Ident
  base : Option TypeExpr
  items : List EnumItem
  span : Span

/-- A method that a trait asks for. -/
structure MethodSig where
  name : Ident
  receiver : Option Receiver
  params : List Param
  ret : ReturnType
  span : Span

structure TraitDef where
  name : Ident
  methods : List MethodSig
  span : Span

structure ImplBlock where
  target : Ident
  traitName : Option Ident
  methods : List Function
  span : Span

structure GlobalDef where
  name : Ident
  constant : Bool
  mutable : Bool
  type : Option TypeExpr
  value : Expr
  span : Span

inductive Item where
  | function (def_ : Function)
  | struct (def_ : StructDef)
  | enum (def_ : EnumDef)
  | trait (def_ : TraitDef)
  | impl (block : ImplBlock)
  | typeAlias (def_ : TypeAlias)
  | global (def_ : GlobalDef)

/-- A source file. -/
abbrev Program := List Item

end JaneCheck.Syntax
