import JaneCheck.Diagnostic
import JaneCheck.Package

/-!
# Implementations of traits

An implementation has every method of its trait with the same type and the same
kind of receiver, and no other methods.
-/

namespace JaneCheck.Package

/-- A function implements a method of a trait. -/
def implementsMethod (f : FuncInfo) (m : TraitMethod) : Bool :=
  f.receiver? == some m.byRef && Ty.function f.sig == Ty.function m.sig

/-- What is wrong with an implementation. -/
def implProblems (p : Package) (i : TraitImpl) : List Diagnostic :=
  let t := p.trait i.trait
  let funcs := i.methods.map p.func
  let missing := t.methods.filter fun m =>
    !(funcs.find? (·.name == m.name)).any (implementsMethod · m)
  let extra := funcs.filter fun f => !t.methods.any (·.name == f.name)
  missing.map (fun m => ⟨.traitMethodMissing t.name m.name, i.span⟩) ++
    extra.map fun f => ⟨.notInTrait t.name f.name, f.decl.name.span⟩

def traitProblems (p : Package) : List Diagnostic := p.impls.toList.flatMap p.implProblems

end JaneCheck.Package
