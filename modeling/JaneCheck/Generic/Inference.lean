import JaneCheck.Ty

/-!
# Inference of type arguments

The type of a parameter is walked beside the type of its argument. Where the
parameter has a type parameter, the argument's type without the modifiers in
front of the type parameter is recorded. The first type recorded for a name
stays; another one is a conflict.
-/

namespace JaneCheck

/-- What inference found, in the order of discovery. A conflict has the name,
the type kept and the type ignored. -/
structure Inferred where
  bindings : List (String × Ty) := []
  conflicts : List (String × Ty × Ty) := []

namespace Inferred

def get? (i : Inferred) (name : String) : Option Ty :=
  (i.bindings.find? (·.1 == name)).map (·.2)

def record (i : Inferred) (name : String) (t : Ty) : Inferred :=
  match i.get? name with
  | none => { i with bindings := i.bindings ++ [(name, t)] }
  | some kept =>
    if kept == t then i else { i with conflicts := i.conflicts ++ [(name, kept, t)] }

/-- The types recorded for the names; `none` when one has none. -/
def ordered? (i : Inferred) (names : List String) : Option (List Ty) := names.mapM i.get?

end Inferred

namespace Generic

mutual

/-- The type parameter `name` occurs in the type. -/
def mentions (name : String) : Ty → Bool
  | .base c => c == .generic && c.name == name
  | .generic n => n == name
  | .pointer t | .reference t | .slice t | .array t _ => mentions name t
  | .map k v => mentions name k || mentions name v
  | .tuple ts => anyMentions name ts
  | .function ⟨params, ret, _, _, _⟩ => paramsMention name params || mentions name ret
  | .struct _ _ gs => anyMentions name gs
  | .trait _ _ | .enum _ _ => false

def anyMentions (name : String) : List Ty → Bool
  | [] => false
  | t :: ts => mentions name t || anyMentions name ts

def paramsMention (name : String) : List (Param Ty) → Bool
  | [] => false
  | ⟨_, t, _, _, _⟩ :: ps => mentions name t || paramsMention name ps

end

/-- Each type parameter occurs in the type of a parameter. -/
def isInferable (names : List String) (params : List Ty) : Bool :=
  names.all fun name => anyMentions name params

/-- A type without its first `n` pointers and references. -/
def strip : Nat → Ty → Ty
  | 0, t => t
  | n + 1, t => strip n t.elem

/-- Records the type parameter `name` of `param` when `arg` begins with the same
modifiers. -/
def record (param arg : Ty) (name : String) (out : Inferred) : Bool × Inferred :=
  let modifiers := param.modifiers
  if modifiers.isPrefixOf arg.modifiers then
    (true, out.record name (strip modifiers.length arg))
  else (false, out)

mutual

/-- Compares `param` with `arg`; the third type is what is left of `param` after
its pointers and references. `false` says that the shapes disagree. -/
def inferCore (param arg : Ty) : Ty → Inferred → Bool × Inferred
  | .pointer t, out | .reference t, out => inferCore param arg t out
  | core, out =>
    if !param.hasGeneric then (true, out)
    else if arg.isVoid || arg.isNil then (false, out)
    else
      match core with
      | .generic name => record param arg name out
      | .base c => record param arg c.name out
      | core =>
        if param.modifiers != arg.modifiers then (false, out)
        else
          match core with
          | .function ⟨params, ret, _, _, _⟩ =>
            match arg.signature? with
            | some given =>
              if params.length == given.params.length then
                let (ok, out) := inferParams params given.params out
                let (okRet, out) := inferCore ret given.ret ret out
                (okRet && ok, out)
              else (false, out)
            | none => (false, out)
          | .map k v =>
            match param, arg with
            | .map _ _, .map ka va =>
              let (okKey, out) := inferCore k ka k out
              let (okValue, out) := inferCore v va v out
              (okKey && okValue, out)
            | _, _ => (false, out)
          | .slice t =>
            match param, arg with
            | .slice _, .slice a => inferCore t a t out
            | _, _ => (false, out)
          | .array t _ =>
            match param, arg with
            | .array _ _, .array a _ => inferCore t a t out
            | _, _ => (false, out)
          | .struct id _ gs =>
            match arg.struct? with
            | some (given, as) =>
              if id == given && gs.length == as.length then inferAll gs as out else (false, out)
            | none => (false, out)
          | _ => (false, out)

def inferAll : List Ty → List Ty → Inferred → Bool × Inferred
  | t :: ts, a :: as, out =>
    let (ok, out) := inferCore t a t out
    let (okRest, out) := inferAll ts as out
    (ok && okRest, out)
  | _, _, out => (true, out)

def inferParams : List (Param Ty) → List (Param Ty) → Inferred → Bool × Inferred
  | ⟨_, t, _, _, _⟩ :: ps, a :: as, out =>
    let (ok, out) := inferCore t a.type t out
    let (okRest, out) := inferParams ps as out
    (ok && okRest, out)
  | _, _, out => (true, out)

end

/-- Records what `arg` says about the type parameters of `param`. -/
def infer (param arg : Ty) (out : Inferred) : Bool × Inferred := inferCore param arg param out

end Generic

end JaneCheck
