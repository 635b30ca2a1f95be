import JaneCheck.Syntax.Expression

/-!
# Rendering syntax trees

`TypeExpr.tokens` and `Expr.tokens` write a tree as the kinds of its tokens. Every
operand, callee, base and size of an array stands in parentheses, so no two
operators compete for an operand. `bare` takes the spans out of a tree: two trees
with the same `bare` differ in their places only.

`level d ks` is how many parentheses are open behind the tokens `ks`, when `d` are
open before them; there is none if one is closed that was not opened. Renderings
close what they open (`Even`).
-/

namespace JaneCheck

open Token (Kind)

namespace Token

/-- The kind of the token that a name is read from. -/
def ofName (name : String) : Kind := if name = "self" then .keyword .selfKw else .name name

/-- Renderings with commas between them. -/
def commas (items : List (List Kind)) : List Kind := [Kind.symbol .comma].intercalate items

/-- Dots before the last of the renderings, if asked for. -/
def dotLast (dots : Bool) : List (List Kind) → List (List Kind)
  | [] => []
  | [item] => [if dots then .symbol .ellipsis :: item else item]
  | item :: items => item :: dotLast dots items

def inParens (ks : List Kind) : List Kind := .symbol .lparen :: ks ++ [.symbol .rparen]

def inBrackets (ks : List Kind) : List Kind := .symbol .lbracket :: ks ++ [.symbol .rbracket]

def inBraces (ks : List Kind) : List Kind := .symbol .lbrace :: ks ++ [.symbol .rbrace]

/-- The token can continue a type that ends before it. -/
def Kind.continuesType (k : Kind) : Bool := [.lbracket, .arrow].any k.isSymbol

/-- The token can continue an expression that ends before it, perhaps in a type. -/
def Kind.continuesExpr (k : Kind) : Bool :=
  (Syntax.precedence? k).isSome || k.continuesType ||
    [.lparen, .lbrace, .dot, .ellipsis, .colonColon].any k.isSymbol

end Token

open Token

namespace Syntax

/-! ## Tokens of operators and literals -/

def BinOp.sign : BinOp → Symbol
  | .add => .plus
  | .sub => .minus
  | .mul => .star
  | .div => .slash
  | .mod => .percent
  | .eq => .eqEq
  | .ne => .ne
  | .lt => .lt
  | .le => .le
  | .gt => .gt
  | .ge => .ge
  | .and => .andAnd
  | .or => .orOr
  | .bitAnd => .amp
  | .bitOr => .bar
  | .bitXor => .caret
  | .shl => .shl
  | .shr => .shr

def UnOp.sign : UnOp → Symbol
  | .neg => .minus
  | .plus => .plus
  | .not => .bang
  | .bitNot => .tilde
  | .deref => .star
  | .addressOf => .amp

def Literal.kind : Literal → Kind
  | .int n => .int n
  | .float x => .float x
  | .text s => .text s
  | .rune c => .rune c
  | .bool true => .keyword .trueKw
  | .bool false => .keyword .falseKw
  | .nil => .keyword .nilKw

/-! ## Trees without places -/

def Ident.bare (i : Ident) : Ident := ⟨i.name, default⟩

mutual

@[simp] def TypeExpr.bare : TypeExpr → TypeExpr
  | .named name gs _ => .named name.bare (TypeExpr.bareAll gs) default
  | .pointer t _ => .pointer t.bare default
  | .reference t _ => .reference t.bare default
  | .rawPointer _ => .rawPointer default
  | .slice t _ => .slice t.bare default
  | .array none t _ => .array none t.bare default
  | .array (some e) t _ => .array (some e.bare) t.bare default
  | .map k v _ => .map k.bare v.bare default
  | .function ts variadic none _ => .function (TypeExpr.bareAll ts) variadic none default
  | .function ts variadic (some t) _ =>
    .function (TypeExpr.bareAll ts) variadic (some t.bare) default
  | .tuple ts _ => .tuple (TypeExpr.bareAll ts) default

def TypeExpr.bareAll : List TypeExpr → List TypeExpr
  | [] => []
  | t :: ts => t.bare :: TypeExpr.bareAll ts

@[simp] def Expr.bare : Expr → Expr
  | .literal value _ => .literal value default
  | .ident name => .ident name.bare
  | .generic name gs _ => .generic name.bare (TypeExpr.bareAll gs) default
  | .binary op l r _ => .binary op l.bare r.bare default
  | .unary op e _ => .unary op e.bare default
  | .call f args _ => .call f.bare (Expr.bareArgs args) default
  | .field e name _ => .field e.bare name.bare default
  | .index e i _ => .index e.bare i.bare default
  | .structLit name gs args _ =>
    .structLit name.bare (TypeExpr.bareAll gs) (Expr.bareArgs args) default
  | .array es _ => .array (Expr.bareAll es) default
  | .cast e t _ => .cast e.bare t.bare default
  | .spread e _ => .spread e.bare default

def Expr.bareAll : List Expr → List Expr
  | [] => []
  | e :: es => e.bare :: Expr.bareAll es

def Expr.bareArgs : List Arg → List Arg
  | [] => []
  | ⟨name, e, _⟩ :: args => ⟨name.map Ident.bare, e.bare, default⟩ :: Expr.bareArgs args

end

/-! ## Renderings -/

mutual

@[simp] def TypeExpr.tokens : TypeExpr → List Kind
  | .named name [] _ => [ofName name.name]
  | .named name (g :: gs) _ =>
    ofName name.name :: inBrackets (commas (TypeExpr.tokensEach (g :: gs)))
  | .pointer t _ => .symbol .star :: t.tokens
  | .reference t _ => .symbol .amp :: t.tokens
  | .rawPointer _ => [.symbol .star, .keyword .unsafeKw]
  | .slice t _ => inBrackets [] ++ t.tokens
  | .array none t _ => inBrackets [.symbol .ellipsis] ++ t.tokens
  | .array (some e) t _ => inBrackets (inParens e.tokens) ++ t.tokens
  | .map k v _ => inBrackets (k.tokens ++ .symbol .colon :: v.tokens)
  | .function ts variadic none _ =>
    .keyword .fnKw :: inParens (commas (dotLast variadic (TypeExpr.tokensEach ts)))
  | .function ts variadic (some t) _ =>
    .keyword .fnKw :: inParens (commas (dotLast variadic (TypeExpr.tokensEach ts))) ++
      .symbol .arrow :: t.tokens
  | .tuple ts _ => inParens (commas (TypeExpr.tokensEach ts))

def TypeExpr.tokensEach : List TypeExpr → List (List Kind)
  | [] => []
  | t :: ts => t.tokens :: TypeExpr.tokensEach ts

@[simp] def Expr.tokens : Expr → List Kind
  | .literal value _ => [value.kind]
  | .ident name => [ofName name.name]
  | .generic name gs _ =>
    ofName name.name :: .symbol .colonColon :: inBrackets (commas (TypeExpr.tokensEach gs))
  | .binary op l r _ => inParens l.tokens ++ .symbol op.sign :: inParens r.tokens
  | .unary op e _ => .symbol op.sign :: inParens e.tokens
  | .call f args _ => inParens f.tokens ++ inParens (commas (Expr.tokensArgs args))
  | .field e name _ => inParens e.tokens ++ [.symbol .dot, ofName name.name]
  | .index e i _ => inParens e.tokens ++ inBrackets i.tokens
  | .structLit name [] args _ => ofName name.name :: inBraces (commas (Expr.tokensArgs args))
  | .structLit name (g :: gs) args _ =>
    ofName name.name :: .symbol .colonColon ::
      inBrackets (commas (TypeExpr.tokensEach (g :: gs))) ++
      inBraces (commas (Expr.tokensArgs args))
  | .array es _ => inBrackets (commas (Expr.tokensEach es))
  | .cast e t _ => inParens e.tokens ++ .keyword .asKw :: t.tokens
  | .spread e _ => inParens e.tokens ++ [.symbol .ellipsis]

def Expr.tokensEach : List Expr → List (List Kind)
  | [] => []
  | e :: es => e.tokens :: Expr.tokensEach es

def Expr.tokensArgs : List Arg → List (List Kind)
  | [] => []
  | ⟨none, e, _⟩ :: args => e.tokens :: Expr.tokensArgs args
  | ⟨some name, e, _⟩ :: args =>
    (ofName name.name :: .symbol .colon :: e.tokens) :: Expr.tokensArgs args

end

section Lists

variable (ts : List TypeExpr) (es : List Expr)

theorem TypeExpr.bareAll_eq_map : TypeExpr.bareAll ts = ts.map TypeExpr.bare := by
  induction ts with
  | nil => rfl
  | cons t ts ih => rw [TypeExpr.bareAll, ih, List.map_cons]

theorem TypeExpr.tokensEach_eq_map : TypeExpr.tokensEach ts = ts.map TypeExpr.tokens := by
  induction ts with
  | nil => rfl
  | cons t ts ih => rw [TypeExpr.tokensEach, ih, List.map_cons]

theorem Expr.bareAll_eq_map : Expr.bareAll es = es.map Expr.bare := by
  induction es with
  | nil => rfl
  | cons e es ih => rw [Expr.bareAll, ih, List.map_cons]

theorem Expr.tokensEach_eq_map : Expr.tokensEach es = es.map Expr.tokens := by
  induction es with
  | nil => rfl
  | cons e es ih => rw [Expr.tokensEach, ih, List.map_cons]

end Lists

def Arg.bare : Arg → Arg
  | ⟨name, e, _⟩ => ⟨name.map Ident.bare, e.bare, default⟩

def Arg.tokens : Arg → List Kind
  | ⟨none, e, _⟩ => e.tokens
  | ⟨some name, e, _⟩ => ofName name.name :: .symbol .colon :: e.tokens

theorem Expr.bareArgs_eq_map (args : List Arg) : Expr.bareArgs args = args.map Arg.bare := by
  induction args with
  | nil => rfl
  | cons a args ih => rw [Expr.bareArgs, ih, List.map_cons, Arg.bare]

theorem Expr.tokensArgs_eq_map (args : List Arg) : Expr.tokensArgs args = args.map Arg.tokens := by
  induction args with
  | nil => rfl
  | cons a args ih =>
    obtain ⟨name, e, _⟩ := a
    cases name <;> rw [Expr.tokensArgs, ih, List.map_cons, Arg.tokens]

/-! ## Trees that can be written -/

mutual

/-- Types are not named `self`, tuples have two components or more, and a variadic
function type has a parameter. -/
def TypeExpr.wellFormed : TypeExpr → Bool
  | .named name gs _ => name.name != "self" && TypeExpr.wellFormedAll gs
  | .pointer t _ | .reference t _ | .slice t _ | .array none t _ => t.wellFormed
  | .rawPointer _ => true
  | .array (some e) t _ => e.wellFormed && t.wellFormed
  | .map k v _ => k.wellFormed && v.wellFormed
  | .function ts variadic none _ => !(variadic && ts.isEmpty) && TypeExpr.wellFormedAll ts
  | .function ts variadic (some t) _ =>
    !(variadic && ts.isEmpty) && TypeExpr.wellFormedAll ts && t.wellFormed
  | .tuple ts _ => 2 ≤ ts.length && TypeExpr.wellFormedAll ts

def TypeExpr.wellFormedAll : List TypeExpr → Bool
  | [] => true
  | t :: ts => t.wellFormed && TypeExpr.wellFormedAll ts

/-- Arguments are not aimed at `self`. -/
def Expr.wellFormed : Expr → Bool
  | .literal _ _ | .ident _ => true
  | .generic _ gs _ => TypeExpr.wellFormedAll gs
  | .binary _ l r _ => l.wellFormed && r.wellFormed
  | .unary _ e _ | .field e _ _ | .spread e _ => e.wellFormed
  | .call f args _ => f.wellFormed && Expr.wellFormedArgs args
  | .index e i _ => e.wellFormed && i.wellFormed
  | .structLit _ gs args _ => TypeExpr.wellFormedAll gs && Expr.wellFormedArgs args
  | .array es _ => Expr.wellFormedAll es
  | .cast e t _ => e.wellFormed && t.wellFormed

def Expr.wellFormedAll : List Expr → Bool
  | [] => true
  | e :: es => e.wellFormed && Expr.wellFormedAll es

def Expr.wellFormedArgs : List Arg → Bool
  | [] => true
  | ⟨name, e, _⟩ :: args =>
    name.all (·.name != "self") && e.wellFormed && Expr.wellFormedArgs args

end

end Syntax

/-! ## Parentheses -/

namespace Token

/-- The open parentheses behind a token. -/
def Kind.nest (d : Nat) (k : Kind) : Option Nat :=
  if k.isSymbol .lparen then some (d + 1)
  else if k.isSymbol .rparen then if d = 0 then none else some (d - 1)
  else some d

/-- The open parentheses behind some tokens. -/
def level (d : Nat) (ks : List Kind) : Option Nat := ks.foldlM Kind.nest d

section Level

variable {d e : Nat} {ks ks' : List Kind}

@[simp] theorem level_nil : level d [] = some d := rfl

@[simp] theorem level_cons (k : Kind) : level d (k :: ks) = (k.nest d).bind (level · ks) := rfl

@[simp] theorem level_append : level d (ks ++ ks') = (level d ks).bind (level · ks') :=
  List.foldlM_append

theorem nest_lparen (d : Nat) : (Kind.symbol .lparen).nest d = some (d + 1) := rfl

theorem nest_rparen (d : Nat) : (Kind.symbol .rparen).nest (d + 1) = some d := rfl

end Level

/-- All parentheses that are opened are closed. -/
def Even (ks : List Kind) : Prop := ∀ d, level d ks = some d

section Even

variable {ks ks' : List Kind}

theorem Even.nil : Even [] := fun _ => rfl

theorem Even.append (h : Even ks) (h' : Even ks') : Even (ks ++ ks') := by
  intro d
  rw [level_append, h d]
  exact h' d

theorem Even.cons {k : Kind} (hk : ∀ d, k.nest d = some d) (h : Even ks) : Even (k :: ks) := by
  intro d
  rw [level_cons, hk d]
  exact h d

theorem Even.inParens (h : Even ks) : Even (inParens ks) := by
  intro d
  show level (d + 1) (ks ++ [.symbol .rparen]) = some d
  rw [level_append, h (d + 1)]
  rfl

theorem Even.inBrackets (h : Even ks) : Even (inBrackets ks) :=
  .cons (fun _ => rfl) (h.append (.cons (fun _ => rfl) .nil))

theorem Even.inBraces (h : Even ks) : Even (inBraces ks) :=
  .cons (fun _ => rfl) (h.append (.cons (fun _ => rfl) .nil))

theorem nest_ofName (name : String) (d : Nat) : (ofName name).nest d = some d := by
  unfold ofName
  split <;> rfl

theorem even_commas {items : List (List Kind)} (h : ∀ ks ∈ items, Even ks) :
    Even (commas items) := by
  induction items with
  | nil => exact .nil
  | cons ks items ih =>
    have hks : Even ks := h ks List.mem_cons_self
    have hitems := ih fun ks hmem => h ks (List.mem_cons_of_mem _ hmem)
    cases items with
    | nil => simpa [commas, List.intercalate] using hks
    | cons ks' items => 
      show Even ([Kind.symbol .comma].intercalate (ks :: ks' :: items))
      rw [List.intercalate_cons_cons]
      exact (hks.append (.cons (fun _ => rfl) .nil)).append hitems

theorem even_dotLast {dots : Bool} {items : List (List Kind)} (h : ∀ ks ∈ items, Even ks) :
    ∀ ks ∈ dotLast dots items, Even ks := by
  fun_induction dotLast dots items with
  | case1 => exact h
  | case2 item =>
    have hitem : Even item := h item List.mem_cons_self
    intro ks hks
    rw [List.mem_singleton.mp hks]
    split
    · exact .cons (fun _ => rfl) hitem
    · exact hitem
  | case3 item items _ ih =>
    intro ks hks
    rcases List.mem_cons.mp hks with rfl | hks
    · exact h ks List.mem_cons_self
    · exact ih (fun ks hmem => h ks (List.mem_cons_of_mem _ hmem)) ks hks

end Even

end Token

namespace Syntax

mutual

theorem TypeExpr.even_tokens (t : TypeExpr) : Even t.tokens := by
  cases t with
  | named name gs _ =>
    cases gs with
    | nil => exact .cons (nest_ofName _) .nil
    | cons g gs =>
      exact .cons (nest_ofName _) (even_commas (TypeExpr.even_tokensEach (g :: gs))).inBrackets
  | pointer t _ | reference t _ => exact .cons (fun _ => rfl) t.even_tokens
  | rawPointer _ => exact .cons (fun _ => rfl) (.cons (fun _ => rfl) .nil)
  | slice t _ => exact Even.nil.inBrackets.append t.even_tokens
  | array size t _ =>
    cases size with
    | none => exact (Even.cons (fun _ => rfl) .nil).inBrackets.append t.even_tokens
    | some e => exact e.even_tokens.inParens.inBrackets.append t.even_tokens
  | map k v _ => exact (k.even_tokens.append (.cons (fun _ => rfl) v.even_tokens)).inBrackets
  | function ts variadic result _ =>
    have hparams : Even (.keyword .fnKw ::
        Token.inParens (commas (dotLast variadic (TypeExpr.tokensEach ts)))) :=
      .cons (fun _ => rfl) (even_commas (even_dotLast (TypeExpr.even_tokensEach ts))).inParens
    cases result with
    | none => exact hparams
    | some t => exact hparams.append (.cons (fun _ => rfl) t.even_tokens)
  | tuple ts _ => exact (even_commas (TypeExpr.even_tokensEach ts)).inParens

theorem TypeExpr.even_tokensEach (ts : List TypeExpr) :
    ∀ ks ∈ TypeExpr.tokensEach ts, Even ks := by
  cases ts with
  | nil => simp [TypeExpr.tokensEach]
  | cons t ts =>
    have ih := TypeExpr.even_tokensEach ts
    simpa [TypeExpr.tokensEach, t.even_tokens] using ih

theorem Expr.even_tokens (e : Expr) : Even e.tokens := by
  cases e with
  | literal value _ =>
    refine .cons (fun d => ?_) .nil
    cases value with
    | bool b => cases b <;> rfl
    | _ => rfl
  | ident name => exact .cons (nest_ofName _) .nil
  | generic name gs _ =>
    exact .cons (nest_ofName _) (.cons (fun _ => rfl)
      (even_commas (TypeExpr.even_tokensEach gs)).inBrackets)
  | binary op l r _ =>
    refine l.even_tokens.inParens.append (.cons (fun d => ?_) r.even_tokens.inParens)
    cases op <;> rfl
  | unary op e _ =>
    refine .cons (fun d => ?_) e.even_tokens.inParens
    cases op <;> rfl
  | call f args _ => exact f.even_tokens.inParens.append (even_commas (Expr.even_tokensArgs args)).inParens
  | field e name _ =>
    exact e.even_tokens.inParens.append (.cons (fun _ => rfl) (.cons (nest_ofName _) .nil))
  | index e i _ => exact e.even_tokens.inParens.append i.even_tokens.inBrackets
  | structLit name gs args _ =>
    have hargs := (even_commas (Expr.even_tokensArgs args)).inBraces
    cases gs with
    | nil => exact .cons (nest_ofName _) hargs
    | cons g gs =>
      have hgs := (even_commas (TypeExpr.even_tokensEach (g :: gs))).inBrackets
      exact .cons (nest_ofName _) (.cons (fun _ => rfl) (hgs.append hargs))
  | array es _ => exact (even_commas (Expr.even_tokensEach es)).inBrackets
  | cast e t _ => exact e.even_tokens.inParens.append (.cons (fun _ => rfl) t.even_tokens)
  | spread e _ => exact e.even_tokens.inParens.append (.cons (fun _ => rfl) .nil)

theorem Expr.even_tokensEach (es : List Expr) : ∀ ks ∈ Expr.tokensEach es, Even ks := by
  cases es with
  | nil => simp [Expr.tokensEach]
  | cons e es =>
    have ih := Expr.even_tokensEach es
    simpa [Expr.tokensEach, e.even_tokens] using ih

theorem Expr.even_tokensArgs (args : List Arg) : ∀ ks ∈ Expr.tokensArgs args, Even ks := by
  cases args with
  | nil => simp [Expr.tokensArgs]
  | cons a args =>
    have ih := Expr.even_tokensArgs args
    obtain ⟨name, e, _⟩ := a
    have he := e.even_tokens
    cases name with
    | none => simpa [Expr.tokensArgs, he] using ih
    | some name =>
      have harg : Even (ofName name.name :: .symbol .colon :: e.tokens) :=
        .cons (nest_ofName _) (.cons (fun _ => rfl) he)
      simpa [Expr.tokensArgs, harg] using ih

end

end Syntax

end JaneCheck
