import JaneCheck.Generic.Combinations
import JaneCheck.Syntax
import JaneCheck.Value

/-!
# Packages

The declarations of all files of a package in one table. A declaration has the
number of its file and keeps its text form; what the phases of the check find
out about it stands beside. Every package-level name has one meaning.
-/

namespace JaneCheck

open Syntax (EnumDef Function GlobalDef StructDef TraitDef TypeAlias)

abbrev FuncId := Nat
abbrev AliasId := Nat
abbrev GlobalId := Nat

/-- What a package-level name stands for. -/
inductive Meaning where
  | struct (id : StructId)
  | trait (id : TraitId)
  | enum (id : EnumId)
  | func (id : FuncId)
  | typeAlias (id : AliasId)
  | global (id : GlobalId)
  deriving DecidableEq, Repr

structure FieldInfo where
  name : String
  type : Ty
  hasDefault : Bool

/-- Field types are those of the template: its type parameters have no values.
Methods are listed newest first. -/
structure StructInfo where
  name : String
  file : Nat
  decl : StructDef
  generics : List String
  fields : List FieldInfo := []
  methods : List (String × FuncId) := []
  traits : List TraitId := []

structure TraitMethod where
  name : String
  byRef : Bool
  sig : FnSig

structure TraitInfo where
  name : String
  file : Nat
  decl : TraitDef
  methods : List TraitMethod := []

structure EnumInfo where
  name : String
  file : Nat
  decl : EnumDef
  base : Ty := .base .u32
  items : List (String × Const) := []

/-- A function or, with an owner, a method. The signature is that of the
template. -/
structure FuncInfo where
  name : String
  file : Nat
  decl : Function
  owner : Option StructId
  generics : List String
  sig : FnSig

structure AliasInfo where
  name : String
  file : Nat
  decl : TypeAlias
  /-- The target, once it is resolved. -/
  type : Option Ty := none

structure GlobalInfo where
  name : String
  file : Nat
  decl : GlobalDef
  /-- The value, once it is computed. -/
  value : Option Value := none

/-- An implementation of a trait for a struct. -/
structure TraitImpl where
  trait : TraitId
  owner : StructId
  methods : List FuncId
  span : Span

instance : Inhabited StructInfo :=
  ⟨{ name := "", file := 0, decl := ⟨default, [], [], default⟩, generics := [] }⟩

instance : Inhabited TraitInfo := ⟨{ name := "", file := 0, decl := ⟨default, [], default⟩ }⟩

instance : Inhabited EnumInfo := ⟨{ name := "", file := 0, decl := ⟨default, none, [], default⟩ }⟩

instance : Inhabited FuncInfo :=
  ⟨{ name := "", file := 0, owner := none, generics := [], sig := ⟨[], .void, false, false, false⟩,
     decl := ⟨default, false, [], none, [], ⟨none, []⟩, ⟨[], false, default⟩, default⟩ }⟩

instance : Inhabited AliasInfo := ⟨{ name := "", file := 0, decl := ⟨default, default, default⟩ }⟩

instance : Inhabited GlobalInfo :=
  ⟨{ name := "", file := 0, decl := ⟨default, false, false, none, default, default⟩ }⟩

def StructInfo.isGeneric (s : StructInfo) : Bool := !s.generics.isEmpty

def FuncInfo.isGeneric (f : FuncInfo) : Bool := !f.generics.isEmpty

/-- How the receiver is taken, when there is one: `true` by reference. -/
def FuncInfo.receiver? (f : FuncInfo) : Option Bool := f.decl.receiver.map (·.byRef)

/-! ## Names known everywhere -/

def builtinType? (name : String) : Option Ty :=
  if name == "byte" then some (.base .u8)
  else if name == "rune" then some (.base .i32)
  else none

/-- Printing takes one value of any type. -/
def builtinFunc? (name : String) : Option FnSig :=
  if name == "print" || name == "println" then
    some ⟨[⟨"v", .base .any, false, false, false⟩], .void, false, false, false⟩
  else none

/-! ## The table -/

structure Package where
  structs : Array StructInfo := #[]
  traits : Array TraitInfo := #[]
  enums : Array EnumInfo := #[]
  funcs : Array FuncInfo := #[]
  aliases : Array AliasInfo := #[]
  globals : Array GlobalInfo := #[]
  impls : Array TraitImpl := #[]
  names : List (String × Meaning) := []
  /-- Aliases without a target, those on a cycle among them. -/
  brokenAliases : List AliasId := []

namespace Package

def empty : Package := {}

def lookup? (p : Package) (name : String) : Option Meaning :=
  (p.names.find? (·.1 == name)).map (·.2)

def struct (p : Package) (id : StructId) : StructInfo := p.structs.getD id default

def trait (p : Package) (id : TraitId) : TraitInfo := p.traits.getD id default

def enum (p : Package) (id : EnumId) : EnumInfo := p.enums.getD id default

def func (p : Package) (id : FuncId) : FuncInfo := p.funcs.getD id default

def typeAlias (p : Package) (id : AliasId) : AliasInfo := p.aliases.getD id default

def global (p : Package) (id : GlobalId) : GlobalInfo := p.globals.getD id default

def method? (p : Package) (owner : StructId) (name : String) : Option FuncId :=
  ((p.struct owner).methods.find? (·.1 == name)).map (·.2)

/-- The type parameters of the struct that a function belongs to. -/
def ownerGenerics (p : Package) (f : FuncInfo) : List String :=
  match f.owner with
  | some id => (p.struct id).generics
  | none => []

/-- `Struct.method` for methods. -/
def qualifiedName (p : Package) (f : FuncInfo) : String :=
  match f.owner with
  | some id => (p.struct id).name ++ "." ++ f.name
  | none => f.name

def definitions (p : Package) : Definitions where
  implements s t := p.structs[s]?.any (·.traits.contains t)
  byReference t := p.traits[t]?.any (·.methods.any (·.byRef))
  enumBase e := (p.enums[e]?.map (·.base)).getD (.base .u32)

end Package

end JaneCheck
