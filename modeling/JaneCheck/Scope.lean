import JaneCheck.Const
import JaneCheck.Source.Span

/-!
# Block scopes

The blocks of a function body form a tree, in which each block knows its parent
and its place among the parent's statements. A block is younger than its
parent, so the way up to the root ends. Names are looked up from the innermost
block outward.
-/

namespace JaneCheck

abbrev BlockId := Nat
abbrev VarId := Nat

/-- A variable of a block. Parameters count as used. -/
structure Var where
  name : String
  type : Ty
  mutable : Bool := false
  constant : Option Const := none
  used : Bool := false
  isParam : Bool := false
  span : Span

structure LocalAlias where
  name : String
  type : Ty
  used : Bool := false
  span : Span

namespace Scopes

/-- Variables, aliases and the indices of declaring statements are kept newest
first. -/
structure Block where
  parent : Option BlockId
  /-- The place among the statements of the parent. -/
  index : Nat
  isUnsafe : Bool
  vars : List VarId := []
  aliases : List LocalAlias := []
  decls : List Nat := []

end Scopes

structure Scopes where
  blocks : Array Scopes.Block := #[]
  vars : Array Var := #[]

namespace Scopes

def empty : Scopes := {}

/-- Opens a block; its id is the number of blocks before. -/
def enter (s : Scopes) (parent : Option BlockId) (index : Nat) (isUnsafe : Bool) :
    BlockId × Scopes :=
  (s.blocks.size, { s with blocks := s.blocks.push { parent, index, isUnsafe } })

/-- The block and its parents up to the root. -/
def ancestors (s : Scopes) (b : BlockId) : List BlockId :=
  match s.blocks[b]?.bind (·.parent) with
  | some p => if p < b then b :: s.ancestors p else [b]
  | none => [b]
termination_by b

def modifyBlock (s : Scopes) (b : BlockId) (f : Block → Block) : Scopes :=
  { s with blocks := s.blocks.modify b f }

def modifyVar (s : Scopes) (v : VarId) (f : Var → Var) : Scopes :=
  { s with vars := s.vars.modify v f }

/-- The variable that a block itself declares under a name. -/
def local? (s : Scopes) (b : BlockId) (name : String) : Option VarId := do
  let block ← s.blocks[b]?
  block.vars.find? fun v => s.vars[v]?.any (·.name == name)

/-- Adds a variable; the variable of the same block that has the name already
prevents it. -/
def declare (s : Scopes) (b : BlockId) (v : Var) : Except VarId (VarId × Scopes) :=
  match s.local? b v.name with
  | some existing => .error existing
  | none =>
    let id := s.vars.size
    .ok (id, { s.modifyBlock b (fun block => { block with vars := id :: block.vars }) with
      vars := s.vars.push v })

/-- The innermost variable of a name. -/
def lookup? (s : Scopes) (b : BlockId) (name : String) : Option VarId :=
  (s.ancestors b).findSome? (s.local? · name)

def addAlias (s : Scopes) (b : BlockId) (a : LocalAlias) : Scopes :=
  s.modifyBlock b fun block => { block with aliases := a :: block.aliases }

/-- The alias that a block itself declares under a name. -/
def localAlias? (s : Scopes) (b : BlockId) (name : String) : Option LocalAlias := do
  let block ← s.blocks[b]?
  block.aliases.find? (·.name == name)

/-- Marks the newest alias of a name as used. -/
def markAlias (name : String) : List LocalAlias → List LocalAlias
  | [] => []
  | a :: as => if a.name == name then { a with used := true } :: as else a :: markAlias name as

/-- The innermost alias of a name, with its block. -/
def lookupAlias? (s : Scopes) (b : BlockId) (name : String) : Option (BlockId × LocalAlias) :=
  (s.ancestors b).findSome? fun b => (s.localAlias? b name).map (b, ·)

/-- The type of the innermost alias of a name, which is used from now on. -/
def useAlias (s : Scopes) (b : BlockId) (name : String) : Option (Ty × Scopes) :=
  (s.lookupAlias? b name).map fun (b, a) =>
    (a.type, s.modifyBlock b fun block => { block with aliases := markAlias name block.aliases })

def isAncestor (s : Scopes) (ancestor of : BlockId) : Bool := (s.ancestors of).contains ancestor

/-- The block or one around it is unsafe. -/
def inUnsafe (s : Scopes) (b : BlockId) : Bool :=
  (s.ancestors b).any fun b => s.blocks[b]?.any (·.isUnsafe)

/-- Variables and then aliases of a block that nothing used. -/
def unused (s : Scopes) (b : BlockId) : List (String × Span) :=
  match s.blocks[b]? with
  | none => []
  | some block =>
    let vars := (block.vars.reverse.filterMap (s.vars[·]?)).filter
      fun v => !v.used && !v.isParam && v.name != "_"
    let aliases := block.aliases.reverse.filter (!·.used)
    vars.map (fun v => (v.name, v.span)) ++ aliases.map fun a => (a.name, a.span)

end Scopes

end JaneCheck
