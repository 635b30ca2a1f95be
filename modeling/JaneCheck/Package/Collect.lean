import JaneCheck.Diagnostic
import JaneCheck.Package

/-!
# Collecting declarations

The declarations of all files enter one table. A name that is taken is reported
and its declaration dropped. Methods are added when all structs and traits are
known, since an `impl` may concern a struct of another file.
-/

namespace JaneCheck

open Syntax (EnumDef Function GlobalDef Ident ImplBlock Program StructDef TraitDef TypeAlias)

namespace Syntax.Program

def structs (p : Program) : List StructDef := p.filterMap fun
  | .struct d => some d
  | _ => none

def traits (p : Program) : List TraitDef := p.filterMap fun
  | .trait d => some d
  | _ => none

def enums (p : Program) : List EnumDef := p.filterMap fun
  | .enum d => some d
  | _ => none

def functions (p : Program) : List Function := p.filterMap fun
  | .function d => some d
  | _ => none

def aliases (p : Program) : List TypeAlias := p.filterMap fun
  | .typeAlias d => some d
  | _ => none

def globals (p : Program) : List GlobalDef := p.filterMap fun
  | .global d => some d
  | _ => none

def impls (p : Program) : List ImplBlock := p.filterMap fun
  | .impl b => some b
  | _ => none

end Syntax.Program

namespace Package

/-- A table with what was wrong on the way to it. -/
structure Collected where
  package : Package := {}
  diags : Array Diagnostic := #[]

namespace Collected

def report (c : Collected) (p : Problem) (span : Span) : Collected :=
  { c with diags := c.diags.push ⟨p, span⟩ }

/-- Gives a name its meaning and adds the entry, unless the name is taken. -/
def declare (c : Collected) (name : Ident) (meaning : Meaning) (add : Package → Package) :
    Collected :=
  if (c.package.lookup? name.name).isSome then c.report (.nameTaken name.name) name.span
  else
    let p := add c.package
    { c with package := { p with names := (name.name, meaning) :: p.names } }

def names (is : List Ident) : List String := is.map (·.name)

def addStruct (file : Nat) (c : Collected) (d : StructDef) : Collected :=
  let info : StructInfo := { name := d.name.name, file, decl := d, generics := names d.generics }
  c.declare d.name (.struct c.package.structs.size) fun p =>
    { p with structs := p.structs.push info }

def addTrait (file : Nat) (c : Collected) (d : TraitDef) : Collected :=
  let info : TraitInfo := { name := d.name.name, file, decl := d }
  c.declare d.name (.trait c.package.traits.size) fun p =>
    { p with traits := p.traits.push info }

def addEnum (file : Nat) (c : Collected) (d : EnumDef) : Collected :=
  let info : EnumInfo := { name := d.name.name, file, decl := d }
  c.declare d.name (.enum c.package.enums.size) fun p => { p with enums := p.enums.push info }

/-- A function before its signature is resolved. -/
def funcInfo (file : Nat) (owner : Option StructId) (d : Function) : FuncInfo :=
  { name := d.name.name, file, decl := d, owner, generics := names d.generics
    sig := ⟨[], .void, d.receiver.isSome, !d.generics.isEmpty, d.isUnsafe⟩ }

def addFunc (file : Nat) (c : Collected) (d : Function) : Collected :=
  c.declare d.name (.func c.package.funcs.size) fun p =>
    { p with funcs := p.funcs.push (funcInfo file none d) }

def addAlias (file : Nat) (c : Collected) (d : TypeAlias) : Collected :=
  let info : AliasInfo := { name := d.name.name, file, decl := d }
  c.declare d.name (.typeAlias c.package.aliases.size) fun p =>
    { p with aliases := p.aliases.push info }

def addGlobal (file : Nat) (c : Collected) (d : GlobalDef) : Collected :=
  let info : GlobalInfo := { name := d.name.name, file, decl := d }
  c.declare d.name (.global c.package.globals.size) fun p =>
    { p with globals := p.globals.push info }

/-- Adds the declarations of a file, kind by kind. -/
def addFile (c : Collected) (file : Nat) (p : Program) : Collected :=
  let c := p.structs.foldl (addStruct file) c
  let c := p.traits.foldl (addTrait file) c
  let c := p.enums.foldl (addEnum file) c
  let c := p.functions.foldl (addFunc file) c
  let c := p.aliases.foldl (addAlias file) c
  p.globals.foldl (addGlobal file) c

/-! ## Implementations -/

/-- A field or another method of the struct has the name. -/
def memberTaken (info : StructInfo) (name : String) : Bool :=
  (info.methods.lookup name).isSome || info.decl.fields.any (·.name.name == name)

/-- Adds the methods of a struct; gives the ids of those added. -/
def addMethods (file : Nat) (owner : StructId) : List Function → Collected →
    Collected × List FuncId
  | [], c => (c, [])
  | d :: ds, c =>
    let name := d.name.name
    if memberTaken (c.package.struct owner) name then
      addMethods file owner ds (c.report (.nameTaken name) d.name.span)
    else
      let id := c.package.funcs.size
      let p := { c.package with
        structs := c.package.structs.modify owner fun s =>
          { s with methods := (name, id) :: s.methods }
        funcs := c.package.funcs.push (funcInfo file (some owner) d) }
      let (c, ids) := addMethods file owner ds { c with package := p }
      (c, id :: ids)

/-- Notes that a struct implements a trait. -/
def addImpl (c : Collected) (trait : TraitId) (owner : StructId) (methods : List FuncId)
    (span : Span) : Collected :=
  { c with package := { c.package with
      structs := c.package.structs.modify owner fun s =>
        if s.traits.contains trait then s else { s with traits := s.traits ++ [trait] }
      impls := c.package.impls.push ⟨trait, owner, methods, span⟩ } }

def addBlock (file : Nat) (c : Collected) (b : ImplBlock) : Collected :=
  match c.package.lookup? b.target.name with
  | some (.struct owner) =>
    match b.traitName with
    | none => (addMethods file owner b.methods c).1
    | some name =>
      match c.package.lookup? name.name with
      | some (.trait id) =>
        let (c, methods) := addMethods file owner b.methods c
        c.addImpl id owner methods b.span
      | _ => c.report (.unknownName name.name) name.span
  | _ => c.report (.unknownName b.target.name) b.target.span

end Collected

/-- The table of a package from its files, which are numbered by their place. A file
without a program is passed over. -/
def merge (files : List (Option Program)) : Collected :=
  let numbered := files.zipIdx
  let c := numbered.foldl (fun c (p, file) => p.elim c (c.addFile file)) {}
  numbered.foldl (fun c (p, file) => p.elim c (·.impls.foldl (Collected.addBlock file) c)) c

/-- The table of files that all have programs. -/
def collect (files : List Program) : Collected := merge (files.map some)

/-- To pass a file over is to take it as empty. -/
theorem merge_eq_collect (files : List (Option Program)) :
    merge files = collect (files.map (·.getD [])) := by
  have hfile : (fun (c : Collected) (e : Option Program × Nat) => e.1.elim c (c.addFile e.2)) =
      fun c e => c.addFile e.2 (e.1.getD []) := by
    funext c e
    cases e.1 <;> rfl
  have hblocks : (fun (c : Collected) (e : Option Program × Nat) =>
      e.1.elim c (·.impls.foldl (Collected.addBlock e.2) c)) =
      fun c e => (e.1.getD []).impls.foldl (Collected.addBlock e.2) c := by
    funext c e
    cases e.1 <;> rfl
  simp only [collect, merge, List.zipIdx_map, List.foldl_map, List.map_map]
  simp [hfile, hblocks]

end Package

end JaneCheck
