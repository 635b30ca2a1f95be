import JaneCheck.Diagnostic
import JaneCheck.Syntax

/-!
# Pairing of arguments and parameters

Arguments of a call or a struct literal are paired with slots before anything
is evaluated. Positional arguments come first, named ones after them; a
variadic slot collects the positional arguments that are left.
-/

namespace JaneCheck

open Syntax (Arg)

/-- A parameter or field that takes an argument. -/
structure Slot where
  name : String
  variadic : Bool

/-- What a slot received, by place in the argument list. -/
inductive Bound where
  | empty
  | single (arg : Nat)
  /-- A spread argument in a variadic slot. -/
  | spread (arg : Nat)
  /-- The arguments that a variadic slot collected. -/
  | many (args : List Nat)
  deriving DecidableEq, Repr, Inhabited

structure Pairing where
  bound : List Bound
  errors : List Diagnostic := []

namespace Pairing

structure Progress extends Pairing where
  /-- The slot of the next positional argument. -/
  position : Nat := 0
  namedSeen : Bool := false
  mixedReported : Bool := false

/-- Where an argument goes: into a slot, nowhere, or nowhere with all after it. -/
inductive Target where
  | slot (index : Nat)
  | skip (d : Diagnostic)
  | stop (d : Diagnostic)

def target (slots : List Slot) (p : Progress) (arg : Arg) : Target :=
  match arg.name with
  | some name =>
    match slots.findIdx? (·.name == name.name) with
    | some i => .slot i
    | none => .skip ⟨.unknownName name.name, name.span⟩
  | none =>
    if p.namedSeen then .skip ⟨.argumentNeedsTarget, arg.span⟩
    else if p.position < slots.length then .slot p.position
    else .stop ⟨.tooManyArguments, arg.span⟩

/-- The slot with the argument added, or what forbids it. -/
def bindArg (slot : Slot) (current : Bound) (i : Nat) (arg : Arg) : Except Problem Bound :=
  let positional := arg.name.isNone
  match current with
  | .empty =>
    if !slot.variadic then .ok (.single i)
    else if arg.value.isSpread then .ok (.spread i)
    else .ok (.many [i])
  | .many list =>
    if positional && !arg.value.isSpread then .ok (.many (list ++ [i]))
    else if slot.variadic && positional then .error .mixedVariadic
    else .error (.argumentTaken slot.name)
  | _ =>
    if slot.variadic && positional then .error .mixedVariadic
    else .error (.argumentTaken slot.name)

/-- Records a problem with an argument; mixed variadic arguments only once. -/
def refuse (p : Progress) (problem : Problem) (span : Span) : Progress :=
  if problem = .mixedVariadic && p.mixedReported then p
  else
    { p with
      errors := p.errors ++ [⟨problem, span⟩]
      mixedReported := p.mixedReported || problem = .mixedVariadic }

/-- Puts an argument into the slot at `index`. A positional argument moves the
position on unless the slot collects. -/
def put (slots : List Slot) (p : Progress) (index i : Nat) (arg : Arg) : Progress :=
  match slots[index]?, p.bound[index]? with
  | some slot, some current =>
    let p :=
      if arg.name.isNone && !slot.variadic then { p with position := p.position + 1 } else p
    match bindArg slot current i arg with
    | .ok b => { p with bound := p.bound.set index b }
    | .error problem => refuse p problem arg.span
  | _, _ => p

def walk (slots : List Slot) : List Arg → Nat → Progress → Progress
  | [], _, p => p
  | arg :: rest, i, p =>
    let t := target slots p arg
    let p := { p with namedSeen := p.namedSeen || arg.name.isSome }
    match t with
    | .slot index => walk slots rest (i + 1) (put slots p index i arg)
    | .skip d => walk slots rest (i + 1) { p with errors := p.errors ++ [d] }
    | .stop d => { p with errors := p.errors ++ [d] }

end Pairing

/-- Pairs arguments with slots. -/
def pair (slots : List Slot) (args : List Arg) : Pairing :=
  (Pairing.walk slots args 0 { bound := slots.map fun _ => .empty }).toPairing

end JaneCheck
