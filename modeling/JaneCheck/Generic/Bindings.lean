import JaneCheck.Diagnostic
import JaneCheck.Ty

/-!
# Bindings of type parameters

Type parameters are bound in frames, the innermost first; a later binding
hides an earlier one of the same name.
-/

namespace JaneCheck

/-- Frames of bindings, both lists newest first. -/
structure Bindings where
  frames : List (List (String × Ty)) := []

namespace Bindings

def empty : Bindings := {}

/-- Opens a frame. -/
def push (b : Bindings) : Bindings := ⟨[] :: b.frames⟩

/-- Closes the innermost frame. -/
def pop (b : Bindings) : Bindings := ⟨b.frames.tail⟩

/-- Binds a name in the innermost frame. -/
def bind (b : Bindings) (name : String) (t : Ty) : Bindings :=
  match b.frames with
  | [] => ⟨[[(name, t)]]⟩
  | frame :: rest => ⟨((name, t) :: frame) :: rest⟩

/-- Opens a frame with the given bindings, the last of which is the newest. -/
def pushFrame (b : Bindings) (frame : List (String × Ty)) : Bindings := ⟨frame.reverse :: b.frames⟩

/-- Opens a frame that binds the names to the types, pairwise. -/
def pushAll (b : Bindings) (names : List String) (types : List Ty) : Bindings :=
  b.pushFrame (names.zip types)

/-- The innermost binding of a name. -/
def lookup? (b : Bindings) (name : String) : Option Ty :=
  (b.frames.flatten.find? (·.1 == name)).map (·.2)

def depth (b : Bindings) : Nat := b.frames.length

end Bindings

/-- What is wrong with `given` type arguments where `required` are declared. -/
def arityProblem? (required given : Nat) : Option Problem :=
  if required = given then none
  else if required = 0 then some .takesNoGenerics
  else if given = 0 then some .needsGenerics
  else if required < given then some .tooManyGenerics
  else some .tooFewGenerics

end JaneCheck
