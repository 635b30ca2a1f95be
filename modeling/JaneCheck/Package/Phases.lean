import JaneCheck.Check.Definition

/-!
# Phases of a check

Aliases, enums, signatures and globals are resolved one after the other, each
phase with the table that the one before has filled; then bodies are checked.
Signatures and bodies are checked file by file.
-/

namespace JaneCheck

open Check (Context State)

/-- What checking finds besides entries of the table. -/
structure Findings where
  diags : Array Diagnostic := #[]
  typings : Array Typing := #[]
  requests : Array Request := #[]

namespace Findings

def append (a b : Findings) : Findings :=
  ⟨a.diags ++ b.diags, a.typings ++ b.typings, a.requests ++ b.requests⟩

instance : Append Findings := ⟨append⟩

def ofState (s : State) : Findings := ⟨s.diags, s.typings, s.requests⟩

def ofDiags (ds : List Diagnostic) : Findings := { diags := ds.toArray }

end Findings

namespace Package

/-- How a package is checked: the options and the number of levels. -/
structure Setup where
  options : Options
  depth : Nat

/-- Runs a check of a package from a fresh state. -/
def find (setup : Setup) (p : Package) (context : Context) (x : Check α) :
    Option (α × Findings) := do
  let (a, s) ← Check.start p setup.options setup.depth context x
  return (a, .ofState s)

def forEachCheck (f : α → Check β) : List α → Check (List β)
  | [] => return []
  | a :: as => do
    let b ← f a
    return b :: (← forEachCheck f as)

/-- The entries of a file with their ids. -/
def ofFile (entries : Array α) (fileOf : α → Nat) (file : Nat) : List (α × Nat) :=
  entries.toList.zipIdx.filter fun (a, _) => fileOf a == file

/-! ## Aliases, enums, globals -/

def resolveAliases (setup : Setup) (p : Package) : Option (Package × Findings) := do
  let ids := List.range p.aliases.size
  let (types, found) ← p.find setup {} (forEachCheck Check.aliasType ids)
  let aliases := (p.aliases.toList.zip types).map fun (a, t) => { a with type := t }
  let broken := (ids.zip types).filterMap fun (id, t) => if t.isNone then some id else none
  return ({ p with aliases := aliases.toArray, brokenAliases := broken }, found)

def resolveEnums (setup : Setup) (p : Package) : Option (Package × Findings) := do
  let (items, found) ← p.find setup {} (forEachCheck Check.enumItems (p.enums.toList.map (·.decl)))
  let enums := (p.enums.toList.zip items).map fun (e, base, items) => { e with base, items }
  return ({ p with enums := enums.toArray }, found)

def computeGlobals (setup : Setup) (p : Package) : Option (Package × Findings) := do
  let (values, found) ← p.find setup { reportGlobals := true }
    (forEachCheck Check.globalValue (List.range p.globals.size))
  let globals := (p.globals.toList.zip values).map fun (g, v) => { g with value := some v }
  return ({ p with globals := globals.toArray }, found)

/-! ## Signatures -/

/-- What the declarations of a file say about types. -/
structure FileTypes where
  fields : List (StructId × List FieldInfo)
  methods : List (TraitId × List TraitMethod)
  sigs : List (FuncId × FnSig)

/-- Resolves with type parameters that have no values. -/
def withTemplates (names : List String) (x : Check α) : Check α :=
  .inContext (.templates names) x

/-- The fields after those known; a second one of a name is reported. -/
def fieldInfos : List Syntax.Field → List FieldInfo → Check (List FieldInfo)
  | [], known => return known
  | f :: fs, known => do
    if known.any (·.name == f.name.name) then
      Check.report (.nameTaken f.name.name) f.name.span
      fieldInfos fs known
    else
      let t ← Check.resolveOrVoid f.type
      fieldInfos fs (known ++ [⟨f.name.name, t, f.default.isSome⟩])

def declaredFields (s : StructInfo) : Check (List FieldInfo) :=
  withTemplates s.generics (fieldInfos s.decl.fields [])

def traitMethods : List Syntax.MethodSig → List TraitMethod → Check (List TraitMethod)
  | [], known => return known
  | m :: ms, known => do
    if known.any (·.name == m.name.name) then
      Check.report (.nameTaken m.name.name) m.name.span
      traitMethods ms known
    else
      let sig ← Check.resolveSignature m.params m.ret m.receiver false
      traitMethods ms (known ++ [⟨m.name.name, m.receiver.any (·.byRef), sig⟩])

/-- The type parameters of a function after those of its owner; a second one of
a name is reported. -/
def templateNames (span : Span) : List String → List String → Check (List String)
  | [], known => return known
  | g :: gs, known => do
    if known.contains g then
      Check.report (.nameTaken g) span
      templateNames span gs known
    else templateNames span gs (known ++ [g])

/-- The signature of a function. Methods of a generic struct have no type
parameters of their own. -/
def funcSig (f : FuncInfo) : Check FnSig := do
  let owner := (← Check.package).ownerGenerics f
  if let first :: _ := f.decl.generics then
    if !owner.isEmpty then Check.report .takesNoGenerics first.span
  let names ← templateNames f.decl.name.span f.generics owner
  withTemplates names
    (Check.resolveSignature f.decl.params f.decl.ret f.decl.receiver f.decl.isUnsafe)

/-- Pairs the results of a check with ids. -/
def withId (f : α → Check β) (entry : α × Nat) : Check (Nat × β) :=
  return (entry.2, ← f entry.1)

def fileTypes (p : Package) (file : Nat) : Check FileTypes := do
  let fields ← forEachCheck (withId declaredFields) (ofFile p.structs (·.file) file)
  let methods ← forEachCheck (withId fun t => traitMethods t.decl.methods [])
    (ofFile p.traits (·.file) file)
  let sigs ← forEachCheck (withId funcSig) (ofFile p.funcs (·.file) file)
  return ⟨fields, methods, sigs⟩

/-- Enters the types of a file. -/
def enterTypes (p : Package) (t : FileTypes) : Package :=
  { p with
    structs := t.fields.foldl (fun a (id, fields) => a.modify id ({ · with fields })) p.structs
    traits := t.methods.foldl (fun a (id, methods) => a.modify id ({ · with methods })) p.traits
    funcs := t.sigs.foldl (fun a (id, sig) => a.modify id ({ · with sig })) p.funcs }

def resolveTypes (setup : Setup) (files : Nat) (p : Package) : Option (Package × Findings) := do
  let results ← (List.range files).mapM fun file => p.find setup {} (p.fileTypes file)
  return (results.foldl (fun p (t, _) => p.enterTypes t) p,
    results.foldl (fun a (_, found) => a ++ found) {})

/-! ## Bodies -/

/-- The function belongs to a generic struct. -/
def ownerIsGeneric (p : Package) (f : FuncInfo) : Bool := !(p.ownerGenerics f).isEmpty

/-- Checks a function; bodies of generic functions wait for their instances. -/
def checkFunc (p : Package) (entry : FuncInfo × Nat) : Check Unit := do
  let (f, id) := entry
  Check.checkParams f.decl.params f.sig
  if !f.isGeneric && !p.ownerIsGeneric f then Check.checkBody id [] []

/-- Checks the structs and functions of a file. -/
def checkFile (p : Package) (file : Nat) : Check Unit := do
  (ofFile p.structs (·.file) file).forM fun (s, id) =>
    if s.isGeneric then pure () else discard (Check.checkStruct id [])
  (ofFile p.funcs (·.file) file).forM p.checkFunc

def checkBodies (setup : Setup) (files : Nat) (p : Package) : Option Findings := do
  let results ← (List.range files).mapM fun file => p.find setup {} (p.checkFile file)
  return results.foldl (fun a (_, found) => a ++ found) {}

end Package

end JaneCheck
