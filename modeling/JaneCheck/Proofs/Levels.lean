import JaneCheck.Proofs.Demand
import JaneCheck.Proofs.Replay

/-!
# What a check asks for

A check gets types and values from its environment. A `Realm` says what may be asked
for, a relation of contexts and parts, and with its demand what holds of the types
on the way. `AsksFor F c x R` says that in the context `c` the check `x` asks only
for what `F` admits and gives a result with `R`. It has a rule for each way in which
a check is made, so what is true of all checks that resolution and evaluation make
is proved by induction on it. Such a check keeps all covered (`AsksFor.sound`). It
does the same in contexts and states that differ in nothing that is admitted,
whoever gives the answers (`AsksFor.mirrors`). `Ran` has a rule for each thing that
happens while it is run. What it changes is a trace of effects when the answers
leave traces, it does not report a jump when the answers do not, and it changes the
scopes in nothing but marks.

`Allows F c` says that `F` admits what is written in the package in the contexts of
aliases and globals that are not open and of templates.
-/

namespace JaneCheck

/-- A `break`, `continue` or `fallthrough` is where it may not stand. -/
def Problem.ofJump : Problem → Bool
  | .breakOutside | .continueOutside | .invalidLabel | .unknownLabel _ | .fallthroughMisplaced
  | .fallthroughInLastCase => true
  | _ => false

namespace Syntax

/-- The types in a signature. -/
def Function.types (f : Function) : List TypeExpr := f.params.map (·.type) ++ f.ret.type.toList

def StructDef.types (d : StructDef) : List TypeExpr := d.fields.map (·.type)

end Syntax

namespace Check

open Demand (Covered)
open Syntax (Arg Expr TypeExpr)

/-! ## Parts -/

/-- The size of a type expression; nothing is asked for a raw pointer. -/
noncomputable def typeWeight : TypeExpr → Nat
  | .rawPointer _ => 0
  | t => sizeOf t

/-- The size of an expression; nothing is asked for a literal. -/
noncomputable def exprWeight : Expr → Nat
  | .literal _ _ => 0
  | e => sizeOf e

theorem typeWeight_le (t : TypeExpr) : typeWeight t ≤ sizeOf t := by
  cases t <;> simp [typeWeight]

theorem exprWeight_le (e : Expr) : exprWeight e ≤ sizeOf e := by
  cases e <;> simp [exprWeight]

/-- What a step may depend on: a type or a value from below, the meaning of a
name in the context, the types of templates, or the context as a whole. -/
inductive Part
  | type (t : TypeExpr)
  | expr (e : Expr)
  | name (name : String)
  | templates
  | context

noncomputable def Part.weight : Part → Nat
  | .type t => typeWeight t
  | .expr e => exprWeight e
  | .name _ | .templates | .context => 0

/-- The parts that resolution depends on. -/
def typeParts : TypeExpr → List Part
  | .named name gs _ => .name name.name :: gs.map .type
  | .pointer t _ | .reference t _ | .slice t _ => [.type t]
  | .rawPointer _ => []
  | .array size t _ => .type t :: size.toList.map .expr
  | .map k v _ => [.type k, .type v]
  | .function ts _ ret _ => ts.map .type ++ ret.toList.map .type
  | .tuple ts _ => ts.map .type

/-- An argument may be spread. -/
def argParts (args : List Arg) : List Part :=
  args.flatMap fun a => [.expr a.value, .expr (spreadOperand a.value)]

/-- A callee may be a template or a member. -/
def calleeParts : Expr → List Part
  | .field base _ _ => [.expr base]
  | .ident name => [.name name.name, .expr (.ident name)]
  | e => [.expr e]

/-- The parts that evaluation depends on. -/
def exprParts : Expr → List Part
  | .literal _ _ => []
  | .ident name => [.name name.name]
  | .generic name gs _ => .name name.name :: .templates :: gs.map .type
  | .binary _ l r _ | .index l r _ => [.expr l, .expr r]
  | .unary _ e _ | .spread e _ => [.expr e]
  | .call f args _ => .templates :: (calleeParts f ++ argParts args)
  | .field e _ _ => [.templates, .expr e]
  | .structLit name gs args _ => .name name.name :: .templates :: (gs.map .type ++ argParts args)
  | .array es _ => es.map .expr
  | .cast e t _ => [.expr e, .type t]

theorem sizeOf_spreadOperand (e : Expr) : sizeOf (spreadOperand e) ≤ sizeOf e := by
  cases e with
  | spread e span =>
    simp only [spreadOperand, Expr.spread.sizeOf_spec]
    omega
  | _ => exact Nat.le_refl _

variable {s s' : State} {x : Part} {K : Problem → Prop} {v : Value}

theorem weight_argParts {args : List Arg} (h : x ∈ argParts args) : x.weight < sizeOf args := by
  obtain ⟨a, ha, hx⟩ := List.mem_flatMap.mp h
  have hmem := List.sizeOf_lt_of_mem ha
  have hvalue := Syntax.sizeOf_value_lt a
  grind [Part.weight, exprWeight_le, sizeOf_spreadOperand]

theorem weight_calleeParts {e : Expr} (h : x ∈ calleeParts e) : x.weight ≤ sizeOf e := by
  cases e <;> grind [calleeParts, Part.weight, exprWeight_le, Expr.field.sizeOf_spec]

theorem weight_typeParts {t : TypeExpr} (h : x ∈ typeParts t) : x.weight < sizeOf t := by
  have hmem : ∀ (ts : List TypeExpr), ∀ t ∈ ts, sizeOf t < sizeOf ts := fun _ _ => List.sizeOf_lt_of_mem
  cases t <;> grind [typeParts, Part.weight, typeWeight_le, exprWeight_le, TypeExpr.named.sizeOf_spec,
    TypeExpr.pointer.sizeOf_spec, TypeExpr.reference.sizeOf_spec, TypeExpr.slice.sizeOf_spec,
    TypeExpr.array.sizeOf_spec, TypeExpr.map.sizeOf_spec, TypeExpr.function.sizeOf_spec,
    TypeExpr.tuple.sizeOf_spec, Option.some.sizeOf_spec]

theorem weight_exprParts {e : Expr} (h : x ∈ exprParts e) : x.weight < sizeOf e := by
  have hmem : ∀ (ts : List TypeExpr), ∀ t ∈ ts, sizeOf t < sizeOf ts := fun _ _ => List.sizeOf_lt_of_mem
  have hmem' : ∀ (es : List Expr), ∀ e ∈ es, sizeOf e < sizeOf es := fun _ _ => List.sizeOf_lt_of_mem
  cases e <;> grind [exprParts, Part.weight, typeWeight_le, exprWeight_le, → weight_argParts,
    → weight_calleeParts, Expr.ident.sizeOf_spec, Expr.generic.sizeOf_spec, Expr.binary.sizeOf_spec,
    Expr.index.sizeOf_spec, Expr.unary.sizeOf_spec, Expr.spread.sizeOf_spec, Expr.call.sizeOf_spec,
    Expr.field.sizeOf_spec, Expr.structLit.sizeOf_spec, Expr.array.sizeOf_spec, Expr.cast.sizeOf_spec]

/-! ## Contexts -/

/-- The type is written in a template. -/
inductive Writes (p : Package) (t : TypeExpr) : Prop
  | func (id) (h : t ∈ (p.func id).decl.types)
  | struct (id) (h : t ∈ (p.struct id).decl.types)

/-! ## Realms -/

/-- What may be asked for in a package, with a demand for the types on the way.
Where the demand says something of types, it fits the package. -/
structure Realm (p : Package) extends Demand where
  asks : Context → Part → Prop
  type {c t} : asks c (.type t) → t.Within span
  expr {c e} : asks c (.expr e) → e.Within span
  covered : strict → toDemand.CoveredPackage p
  places : strict ∨ ∀ s, span s

/-- All that `Q` admits, without a demand. -/
def Realm.lax (p : Package) (Q : Context → Part → Prop) : Realm p :=
  { Demand.lax p with
    asks := Q
    type := fun {_ t} _ => t.within_of_forall fun _ => trivial
    expr := fun {_ e} _ => e.within_of_forall fun _ => trivial
    covered := nofun
    places := .inr fun _ => trivial }

abbrev Realm.any (p : Package) : Realm p := .lax p fun _ _ => True

def Part.Within (P : Span → Prop) : Part → Prop
  | .type t => t.Within P
  | .expr e => e.Within P
  | .name _ | .templates | .context => True

/-- All that lies at the places of a demand that fits the package. -/
def Realm.within (D : Demand) {p : Package} (hp : D.CoveredPackage p) : Realm p :=
  { D with
    asks := fun _ x => x.Within D.span
    type := id
    expr := id
    covered := fun _ => hp
    places := .inl hp.strict }

section Declared

open Demand

variable {p : Package} {F : Realm p} {name : String}

/-! What is written in the package lies at the places of a realm. -/

theorem Realm.within_alias {id : AliasId} (hid : p.HasAlias id) : (p.typeAlias id).decl.Within F.span := by
  rcases F.places with hstrict | hall
  · have hp := F.covered hstrict
    rcases hid with hlt | ⟨name, hname⟩
    · exact hp.within.aliases _ (getD_mem hlt)
    · rw [(hp.aliases id).decl]
      exact hp.placed.typeAlias (hp.meaning _ ▸ hname)
  · exact ⟨hall _, Syntax.TypeExpr.within_of_forall hall _⟩

theorem Realm.within_global {id : GlobalId} (hid : p.HasGlobal id) : (p.global id).decl.Within F.span := by
  rcases F.places with hstrict | hall
  · have hp := F.covered hstrict
    rcases hid with hlt | ⟨name, hname⟩
    · exact hp.within.globals _ (getD_mem hlt)
    · rw [(hp.globals id).decl]
      exact hp.placed.global (hp.meaning _ ▸ hname)
  · exact ⟨hall _, fun t _ => t.within_of_forall hall, Syntax.Expr.within_of_forall hall _, hall _⟩

theorem Realm.within_fields (id : StructId) : ∀ f ∈ (p.struct id).decl.fields, f.Within F.span := by
  rcases F.places with hstrict | hall
  · exact ((F.covered hstrict).structs id).decl
  · exact fun f _ => f.within_of_forall hall

theorem Realm.within_methods (id : TraitId) : ∀ m ∈ (p.trait id).decl.methods, m.Within F.span := by
  rcases F.places with hstrict | hall
  · exact ((F.covered hstrict).traits id).decl
  · exact fun m _ => m.within_of_forall hall

theorem Realm.within_funcs : ∀ f ∈ p.funcs, f.decl.Within F.span := by
  rcases F.places with hstrict | hall
  · exact (F.covered hstrict).within.funcs
  · exact fun f _ => f.decl.within_of_forall hall

theorem Realm.declares_of_lookup {id : FuncId} (h : p.lookup? name = some (.func id)) : F.Declares id :=
  fun hstrict =>
    have hp := F.covered hstrict
    hp.placed.function (hp.meaning _ ▸ h)

theorem Realm.declares_of_method {id : StructId} {f : FuncId} (h : p.method? id name = some f) :
    F.Declares f := by
  intro hstrict
  have hp := F.covered hstrict
  obtain ⟨e, he, rfl⟩ := Option.map_eq_some_iff.mp h
  exact hp.placed.method ((hp.structs id).methods e (List.mem_of_find?_eq_some he))

theorem Realm.covers_sig (id : FuncId) : F.Covers (.function (p.func id).sig) :=
  .of fun hstrict => ((F.covered hstrict).funcs id).sig

theorem Realm.covers_enumBase (id : EnumId) : F.Covers (p.definitions.enumBase id) := by
  refine .of fun hstrict => ?_
  have hbase := ((F.covered hstrict).enums id).base
  unfold Package.enum at hbase
  show F.Covers ((p.enums[id]?.map (·.base)).getD (.base .u32))
  rw [Array.getD_eq_getD_getElem?] at hbase
  cases hi : p.enums[id]? with
  | none => exact covers_base _
  | some e => rw [hi] at hbase; exact hbase

end Declared

/-- `F` admits what a step in the context may ask for beside its parts. -/
structure Allows {p : Package} (F : Realm p) (c : Context) : Prop where
  target {id} (hid : p.HasAlias id) :
    id ∉ c.aliasPath → F.asks (c.openAlias id) (.type (p.typeAlias id).decl.target)
  globalType {id} (hid : p.HasGlobal id) :
    id ∉ c.globalPath → ∀ t ∈ (p.global id).decl.type, F.asks (c.openGlobal id) (.type t)
  globalValue {id} (hid : p.HasGlobal id) :
    id ∉ c.globalPath → F.asks (c.openGlobal id) (.expr (p.global id).decl.value)
  template : F.asks c .templates → ∀ frame t, Writes p t → F.asks (c.openTemplate frame) (.type t)

theorem allows_any {p : Package} {c : Context} : Allows (.any p) c := by
  constructor <;> intros <;> trivial

theorem allows_within {D : Demand} {p : Package} (hp : D.CoveredPackage p) {c : Context} :
    Allows (.within D hp) c where
  target hid _ := ((Realm.within D hp).within_alias hid).target
  globalType hid _ := ((Realm.within D hp).within_global hid).type
  globalValue hid _ := ((Realm.within D hp).within_global hid).value
  template _ frame t ht := by
    cases ht with
    | func id ht =>
      by_cases hid : id < p.funcs.size
      · have hdecl := hp.within.funcs _ (Demand.getD_mem hid)
        rcases List.mem_append.mp ht with ht | ht
        · obtain ⟨q, hq, rfl⟩ := List.mem_map.mp ht
          exact (hdecl.params q hq).type
        · exact hdecl.ret t (Option.mem_toList.mp ht)
      · rw [show p.func id = default by simp [Package.func, Nat.le_of_not_lt hid]] at ht
        cases ht
    | struct id ht =>
      obtain ⟨f, hf, rfl⟩ := List.mem_map.mp ht
      exact ((hp.structs id).decl f hf).type

/-! ## Answers -/

/-- `y` answers what `x` answers. -/
def Step.Below (x y : Step α) : Prop := ∀ ⦃s r⦄, x.run s = some r → y.run s = some r

/-- The second answers are the first where `Q` admits the question. -/
structure Extends (Q : Context → Part → Prop) (resolveIn resolveIn' : Context → TypeExpr → Step (Option Ty))
    (evalIn evalIn' : Context → Expr → Option Ty → Step Value) : Prop where
  resolve : ∀ c t, Q c (.type t) → (resolveIn c t).Below (resolveIn' c t)
  eval : ∀ c e hint, Q c (.expr e) → (evalIn c e hint).Below (evalIn' c e hint)

/-! ## Problems of jumps -/

/-- What was added on the way from `s` to `s'` are problems with `K`. -/
def State.Raises (K : Problem → Prop) (s s' : State) : Prop := ∀ d ∈ s.added s', K d.problem

theorem State.raises_of_diags (h : s'.diags = s.diags) : s.Raises K s' := by
  intro d hd
  simp [added, h, ← Array.length_toList] at hd

theorem State.raises_push {d : Diagnostic} (h : s'.diags = s.diags.push d) (hd : K d.problem) :
    s.Raises K s' := by
  intro d' hd'
  have hmem : d' = d := by simpa [added, h, ← Array.length_toList] using hd'
  rw [hmem]
  exact hd

theorem State.Raises.trans {s1 s2 : State} (h : s.Raises K s1) (h' : s1.Raises K s2) (hle : s.Le s1)
    (hle' : s1.Le s2) : s.Raises K s2 := by
  intro d hd
  rw [added_trans hle hle'] at hd
  rcases List.mem_append.mp hd with hd | hd
  · exact h d hd
  · exact h' d hd

/-- What was added is not about jumps. -/
abbrev State.JumpFree (s s' : State) : Prop := s.Raises (·.ofJump = false) s'

/-- What a level does is in `K`. -/
structure Level (p : Package) (o : Options) (n : Nat) (K : Context → State → State → Prop) : Prop where
  resolve : ∀ ⦃c t s a s'⦄, (resolveAt p o n c t).run s = some (a, s') → K c s s'
  eval : ∀ ⦃c e hint s a s'⦄, (evalAt p o n c e hint).run s = some (a, s') → K c s s'

/-! ## The judgement -/

/-- A variable is read; when it is void, that is counted. -/
def readVar (id : VarId) : Check Value := do
  let v ← useVar id
  countVoidRead v
  return v

/-- A global is read; when it is void, that is counted. -/
def readGlobal (id : GlobalId) : Check Value := do
  let v ← globalValue id
  countVoidRead v
  return v

structure CoveredOutput (D : Demand) (out : Output) : Prop where
  diags : ∀ d ∈ out.diags, D.span d.span
  typings : ∀ t ∈ out.typings, Demand.Covered.By D t
  requests : ∀ r ∈ out.requests, D.Sound r

/-- In the context `c` the check asks only for what `F` admits and gives a result
with `R`. -/
inductive AsksFor {p : Package} (F : Realm p) :
    {α : Type} → Context → Check α → (α → Prop) → Prop
  | pure {c : Context} {α : Type} {R : α → Prop} {a : α} (h : R a) : AsksFor F c (Pure.pure a) R
  | bind {c : Context} {α β : Type} {x : Check α} {f : α → Check β} {M : α → Prop} {R : β → Prop}
      (hx : AsksFor F c x M) (hf : ∀ a, M a → AsksFor F c (f a) R) : AsksFor F c (x >>= f) R
  | mono {c : Context} {α : Type} {x : Check α} {M R : α → Prop} (hx : AsksFor F c x M)
      (h : ∀ a, M a → R a) : AsksFor F c x R
  | congr {c : Context} {α : Type} {x y : Check α} {R : α → Prop} (h : ∀ env : Env, x env = y env)
      (hy : AsksFor F c y R) : AsksFor F c x R
  /-- Reading the package, which is fixed. -/
  | package {c : Context} {α : Type} {f : Package → Check α} {R : α → Prop}
      (hf : AsksFor F c (f p) R) : AsksFor F c (package >>= f) R
  | options {c : Context} : AsksFor F c options fun _ => True
  /-- Reading the context, which is fixed. -/
  | context {c : Context} {α : Type} {f : Context → Check α} {R : α → Prop} (h : F.asks c .context)
      (hf : F.CoveredContext c → AsksFor F c (f c) R) : AsksFor F c (context >>= f) R
  /-- Reading what a name is bound to. -/
  | bound {c : Context} {α : Type} {f : Context → Check α} {R : α → Prop} {name : String}
      (h : F.asks c (.name name))
      (hread : ∀ c' : Context, c'.bindings.lookup? name = c.bindings.lookup? name →
        c'.templates.contains name = c.templates.contains name → f c' = f c)
      (hf : F.CoveredContext c → AsksFor F c (f c) R) : AsksFor F c (context >>= f) R
  | inUnsafe {c : Context} : AsksFor F c inUnsafe fun _ => True
  | lookupVar {c : Context} {name : String} (h : F.asks c (.name name)) :
      AsksFor F c (lookupVar name) fun _ => True
  /-- Reading a variable, or what else has the name. -/
  | readVar {c : Context} {name : String} {other : Check Value} (h : F.asks c (.name name))
      (hother : AsksFor F c other (Covered.By F.toDemand)) : AsksFor F c (do
        match ← lookupVar name with
        | some id => readVar id
        | none => other) (Covered.By F.toDemand)
  | useLocalAlias {c : Context} {name : String} (h : F.asks c (.name name)) :
      AsksFor F c (useLocalAlias name) fun o => Covered.By F.toDemand o ∧ (c.block = none → o = none)
  /-- What follows depends on what was found in between. -/
  | since {c : Context} {α β : Type} {x : Check α} {k : State → State → α → Check β}
      {g : Output → α → Check β} {M : α → Prop} {R : β → Prop} (hx : AsksFor F c x M)
      (hg : ∀ out a, M a → AsksFor F c (g out a) R)
      (hsame : ∀ {s out s'} a, s.Adds out s' → k s s' a = g out a) : AsksFor F c (do
        let s ← state
        let a ← x
        let s' ← state
        k s s' a) R
  /-- One effect on the output alone. -/
  | output {c : Context} {f : State → State} {le : ∀ s : State, s.Le (f s)} (out : Output)
      (heffect : ∀ s, Effect p s (f s)) (hput : ∀ s : State, f s = s.put out)
      (hjumps : ∀ d ∈ out.diags, d.problem.ofJump = false) (hcovered : CoveredOutput F.toDemand out) :
      AsksFor F c (update f le) fun _ => ∀ r ∈ out.requests, F.request r
  | aliasType {c : Context} {id : AliasId} (hid : p.HasAlias id)
      (h : id ∉ c.aliasPath → F.asks (c.openAlias id) (.type (p.typeAlias id).decl.target)) :
      AsksFor F c (aliasType id) fun o => ∀ u ∈ o, F.Covers u ∧ F.Target id u
  | globalValue {c : Context} {id : GlobalId} (hid : p.HasGlobal id)
      (h : id ∉ c.globalPath → AsksFor F (c.openGlobal id) (computeGlobal (p.global id).decl)
        (Covered.By F.toDemand)) : AsksFor F c (globalValue id) (Covered.By F.toDemand)
  | readGlobal {c : Context} {id : GlobalId} (hid : p.HasGlobal id)
      (h : id ∉ c.globalPath → AsksFor F (c.openGlobal id) (computeGlobal (p.global id).decl)
        (Covered.By F.toDemand)) : AsksFor F c (readGlobal id) (Covered.By F.toDemand)
  | inTemplate {c : Context} {α : Type} {frame : List (String × Ty)} {x : Check α} {R : α → Prop}
      (hframe : Covered.By F.toDemand frame) (hx : AsksFor F (c.openTemplate frame) x R)
      (hrun : ∀ ⦃o n s a s'⦄, (x (envAt p o n (c.openTemplate frame))).run s = some (a, s') →
        TemplateRun p o c.reportGlobals s s') : AsksFor F c (inTemplate frame x) R
  | resolve {c : Context} {t : TypeExpr} (ht : F.asks c (.type t)) :
      AsksFor F c (resolve t) (F.Meant c t)
  | evalAny {c : Context} {e : Expr} {hint : Option Ty} (he : F.asks c (.expr e))
      (hh : Covered.By F.toDemand hint) : AsksFor F c (evalAny e hint) (Covered.By F.toDemand)

/-- The types in the result are covered. -/
abbrev Asks {p : Package} (F : Realm p) (c : Context) (x : Check α) [Covered α] : Prop :=
  AsksFor F c x (Covered.By F.toDemand)

section Rules

variable {p : Package} {F : Realm p} {c : Context} {M : α → Prop} {R : β → Prop}

theorem AsksFor.then {x : Check α} {f : α → Check β} (hx : AsksFor F c x M)
    (hf : ∀ a, AsksFor F c (f a) R) : AsksFor F c (x >>= f) R :=
  .bind hx fun a _ => hf a

theorem AsksFor.map {x : Check α} {f : α → β} (hx : AsksFor F c x M) (hf : ∀ a, M a → R (f a)) :
    AsksFor F c (f <$> x) R :=
  .bind hx fun a ha => .pure (hf a ha)

theorem AsksFor.discard {x : Check α} (hx : AsksFor F c x M) : Asks F c (discard x) :=
  .map hx fun _ _ => trivial

theorem AsksFor.listForM {as : List α} {f : α → Check Unit} (h : ∀ a ∈ as, Asks F c (f a)) :
    Asks F c (as.forM f) := by
  induction as with
  | nil => exact .pure trivial
  | cons a as ih => exact .then (h a (by simp)) fun _ => ih fun b hb => h b (by simp [hb])

theorem AsksFor.optionForM {o : Option α} {f : α → Check Unit} (h : ∀ a ∈ o, Asks F c (f a)) :
    Asks F c (o.forM f) := by
  cases o with
  | none => exact .pure trivial
  | some a => exact h a rfl

end Rules

/-! ## What a name stands for -/

/-- The variable of a name, with its value. -/
def Context.foundVar (c : Context) (scopes : Scopes) (name : String) : Option (VarId × Value) :=
  (c.block.bind (scopes.lookup? · name)).map fun id => (id, (scopes.vars[id]?.map varValue).getD .void)

/-- The local alias of a name: its block and its type. -/
def Context.foundAlias (c : Context) (scopes : Scopes) (name : String) : Option (BlockId × Ty) :=
  (c.block.bind (scopes.lookupAlias? · name)).map fun found => (found.1, found.2.type)

def Context.unsafeIn (c : Context) (scopes : Scopes) : Bool :=
  c.func.isUnsafe || c.block.any scopes.inUnsafe

/-- The state in which an alias that was found was used. -/
def State.useAlias (s : State) (name : String) : Option (BlockId × Ty) → State
  | none => s
  | some (b, _) => { s with scopes := s.scopes.mark b name }

section Found

variable {env : Env} {s : State} {name : String}

theorem gives_inUnsafe :
    Gives env s inUnsafe fun b s' => b = env.context.unsafeIn s.scopes.bare ∧ s' = s := by
  refine .context ?_
  rw [Context.unsafeIn]
  split
  next h => exact .pure ⟨by simp [h], rfl⟩
  next h =>
    split
    next b hb => exact .state (.pure ⟨by simp [h, hb, Scopes.inUnsafe_bare], rfl⟩)
    next hb => exact .pure ⟨by simp [h, hb], rfl⟩

theorem gives_lookupVar_bare (name : String) : Gives env s (lookupVar name) fun found s' =>
    found = (env.context.foundVar s.scopes.bare name).map Prod.fst ∧ s' = s := by
  simpa [Context.foundVar, Scopes.lookup?_bare, Function.comp_def] using gives_lookupVar name

theorem gives_foundVar {id : VarId} (h : env.context.foundVar s.scopes.bare name = some (id, v)) :
    Gives env s (useVar id) fun v' s' => v' = v ∧ s' = s.useVar id := by
  obtain ⟨_, -, ⟨⟩⟩ := Option.map_eq_some_iff.mp h
  rw [Scopes.getElem?_vars_bare, Option.map_map]
  exact gives_useVar id

theorem gives_useLocalAlias (name : String) : Gives env s (useLocalAlias name) fun a s' =>
    a = (env.context.foundAlias s.scopes.bare name).map Prod.snd ∧
      s' = s.useAlias name (env.context.foundAlias s.scopes.bare name) := by
  refine .context ?_
  rw [Context.foundAlias]
  split
  next hb => exact .pure ⟨by simp [hb], by rw [hb]; rfl⟩
  next b hb =>
    refine .state ?_
    rw [Scopes.useAlias, hb, Option.bind_some, Scopes.lookupAlias?_bare]
    cases s.scopes.lookupAlias? b name with
    | none => exact .pure ⟨rfl, rfl⟩
    | some found => exact ⟨_, _, rfl, rfl, rfl⟩

theorem State.view_useAlias (name : String) (found : Option (BlockId × Ty)) (s : State) :
    (s.useAlias name found).view = s.view := by
  cases found with
  | none => rfl
  | some found => exact view_scopes rfl (s.scopes.bare_mark _ name)

theorem State.Adds.useAlias {found : Option (BlockId × Ty)} : s.Adds {} (s.useAlias name found) := by
  cases found <;> constructor <;> simp [State.useAlias]

end Found

/-! ## Coverage -/

/-- What follows a check and depends on what it found. -/
theorem run_since {env : Env} {x : Check α} {k : State → State → α → Check β}
    {g : Output → α → Check β} {b : β} (hsame : ∀ {s out s'} a, s.Adds out s' → k s s' a = g out a)
    (h : ((do
      let s ← state
      let a ← x
      let s' ← state
      k s s' a : Check β) env).run s = some (b, s')) :
    ∃ out a s1, (x env).run s = some (a, s1) ∧ (g out a env).run s1 = some (b, s') := by
  obtain ⟨_, _, ⟨⟩, h⟩ := run_bind.mp h
  obtain ⟨a, s1, hxa, h⟩ := run_bind.mp h
  obtain ⟨_, _, ⟨⟩, h⟩ := run_bind.mp h
  obtain ⟨out, hadds⟩ := (Step.le _ hxa).adds
  exact ⟨out, a, s1, hxa, hsame a hadds ▸ h⟩

section Coverage

open Demand

variable {D : Demand}

theorem coveredState_put (hs : D.CoveredState s) {out : Output} (h : CoveredOutput D out) :
    D.CoveredState (s.put out) := by
  have hadds := s.adds_put out
  refine { hs with diags := ?_, typings := ?_, requests := ?_ }
  · rw [hadds.diags]
    exact List.forall_mem_append.mpr ⟨hs.diags, h.diags⟩
  · rw [hadds.typings]
    exact List.forall_mem_append.mpr ⟨hs.typings, h.typings⟩
  · rw [hadds.requests]
    exact List.forall_mem_append.mpr ⟨hs.requests, h.requests⟩

theorem coveredState_countVoidRead {env : Env} {a : Unit} (hs : D.CoveredState s)
    (h : (countVoidRead v env).run s = some (a, s')) : D.CoveredState s' := by
  unfold countVoidRead at h
  split at h
  · cases h
    exact { hs with }
  · cases h
    exact hs

theorem covers_varValue (hs : D.CoveredState s) (id : VarId) :
    D.Covers ((s.scopes.vars[id]?.map varValue).getD .void).type := by
  cases hvar : s.scopes.vars[id]? with
  | none => exact covers_void
  | some var => exact (hs.vars var (Array.mem_toList_iff.mpr (Array.mem_of_getElem? hvar))).1

theorem covered_markAlias {as : List LocalAlias} (name : String) (h : Covered.By D as) :
    Covered.By D (Scopes.markAlias name as) := by
  induction as with
  | nil => exact covered_nil
  | cons a as ih =>
    have ha := h a (by simp)
    have has : Covered.By D as := fun b hb => h b (by simp [hb])
    unfold Scopes.markAlias
    split
    · exact covered_cons ha has
    · exact covered_cons ha (ih has)

theorem coveredState_useAlias {name : String} {found : Option (BlockId × Ty)}
    (hs : D.CoveredState s) : D.CoveredState (s.useAlias name found) := by
  cases found with
  | none => exact hs
  | some found =>
    exact { hs with aliases := forall_mem_modify hs.aliases fun _ h => covered_markAlias name h }

theorem covered_foundAlias {c : Context} (hs : D.CoveredState s) (name : String) :
    ∀ found ∈ c.foundAlias s.scopes.bare name, D.Covers found.2 := by
  intro found hfound
  obtain ⟨⟨b', a⟩, hbind, rfl⟩ := Option.map_eq_some_iff.mp hfound
  obtain ⟨b, -, hlookup⟩ := Option.bind_eq_some_iff.mp hbind
  rw [Scopes.lookupAlias?_bare] at hlookup
  obtain ⟨⟨_, a⟩, ha, ⟨⟩⟩ := Option.map_eq_some_iff.mp hlookup
  obtain ⟨b'', -, hb⟩ := List.exists_of_findSome?_eq_some ha
  obtain ⟨a', ha', ⟨⟩⟩ := Option.map_eq_some_iff.mp hb
  obtain ⟨block, hblock, hfind⟩ := Option.bind_eq_some_iff.mp ha'
  exact (hs.aliases block (Array.mem_toList_iff.mpr (Array.mem_of_getElem? hblock)) a
    (List.mem_of_find?_eq_some hfind)).1

theorem bound_openAlias (c : Context) (id : AliasId) : (c.openAlias id).bound = fun _ => none := by
  funext name
  simp [Context.openAlias, Context.bound, Bindings.lookup?]

variable {p : Package} {F : Realm p} {o : Options} {c : Context}
  {resolveIn : Context → TypeExpr → Step (Option Ty)} {evalIn : Context → Expr → Option Ty → Step Value}

theorem ensures_aliasType {id : AliasId} (hid : p.HasAlias id)
    (hresolve : id ∉ c.aliasPath →
      F.EnsuresStep (resolveIn (c.openAlias id) (p.typeAlias id).decl.target)
        (F.Meant (c.openAlias id) (p.typeAlias id).decl.target)) :
    F.EnsuresStep (aliasType id ⟨p, o, c, resolveIn, evalIn⟩) fun o =>
      ∀ u ∈ o, F.Covers u ∧ F.Target id u := by
  intro s a s' hs he hr
  cases aliasRun_of_run he with
  | typed ht =>
    have htype hstrict := ((F.covered hstrict).aliases id).type _ ht
    refine ⟨hs, ?_⟩
    rintro _ ⟨⟩
    exact ⟨.of fun hstrict => (htype hstrict).1, fun hstrict => (htype hstrict).2 hstrict⟩
  | broken _ _ | cyclic _ _ => exact ⟨hs, nofun⟩
  | answered _ _ _ hcached =>
    obtain ⟨before, after, hsplit, -⟩ := List.lookup_eq_some_iff.mp hcached
    exact ⟨hs, hs.aliasCache (id, a) (by simp [hsplit])⟩
  | cycle _ _ => exact ⟨{ hs with diags := forall_mem_push hs.diags (F.within_alias hid).name }, nofun⟩
  | @opened r s1 _ hpath hrun =>
    obtain ⟨hs1, hmeant⟩ := hresolve hpath hs hrun hr
    -- a member of a cycle has no target, whatever was found
    have hanswer : ∀ u ∈ s1.answer id r, F.Covers u ∧ F.Target id u := by
      intro u hu
      unfold State.answer at hu
      split at hu
      · cases hu
      · refine ⟨hmeant.covers u hu, fun hstrict => ?_⟩
        have hdenotes := hmeant.denotes hstrict rfl u hu
        rwa [bound_openAlias, ((F.covered hstrict).aliases id).decl] at hdenotes
    exact ⟨{ hs1 with aliasCache := List.forall_mem_cons.mpr ⟨hanswer, hs1.aliasCache⟩ }, hanswer⟩

theorem ensures_globalValue {id : GlobalId} (hid : p.HasGlobal id)
    (hcompute : id ∉ c.globalPath → F.EnsuresStep
      (computeGlobal (p.global id).decl ⟨p, o, c.openGlobal id, resolveIn, evalIn⟩)
      (Covered.By F.toDemand)) :
    F.EnsuresStep (globalValue id ⟨p, o, c, resolveIn, evalIn⟩) (Covered.By F.toDemand) := by
  intro s a s' hs he hr
  cases globalRun_of_run he with
  | valued hv => exact ⟨hs, .of fun hstrict => ((F.covered hstrict).globals id).value _ hv⟩
  | cyclic _ _ => exact ⟨hs, covers_void⟩
  | answered _ _ hv => exact ⟨hs, covered_lookup hs.globalCache id a hv⟩
  | cycle _ _ => exact ⟨{ hs with diags := forall_mem_push hs.diags (F.within_global hid).name }, covers_void⟩
  | @computed v s1 _ hpath hrun =>
    have hrequests : (s1.heard s c.reportGlobals).requests = s1.requests := by
      cases c.reportGlobals <;> rfl
    obtain ⟨hs1, hv⟩ := hcompute hpath hs hrun (hrequests ▸ hr)
    have hval : F.Covers (if s1.cyclicGlobals.contains id then Value.void else v).type := by
      split
      · exact covers_void
      · exact hv
    refine ⟨?_, hval⟩
    show F.CoveredState ((s1.heard s c.reportGlobals).rememberGlobal id v)
    rw [State.rememberGlobal, State.heard_cyclicGlobals]
    cases c.reportGlobals with
    | true => exact { hs1 with globalCache := covered_cons ⟨trivial, hval⟩ hs1.globalCache }
    | false => exact { hs1 with
        diags := hs.diags, globalCache := covered_cons ⟨trivial, hval⟩ hs1.globalCache }

end Coverage

section Sound

open Demand

variable {p : Package} {c : Context} {o : Options} {R : α → Prop}
  {resolveIn : Context → TypeExpr → Step (Option Ty)} {evalIn : Context → Expr → Option Ty → Step Value}

/-- A check keeps all covered when those who give the answers do. -/
theorem AsksFor.sound {F : Realm p} {x : Check α} (hx : AsksFor F c x R)
    (hresolve : ∀ {c t}, F.CoveredContext c → F.asks c (.type t) →
      F.EnsuresStep (resolveIn c t) (F.Meant c t))
    (heval : ∀ {c e hint}, F.CoveredContext c → F.asks c (.expr e) → Covered.By F.toDemand hint →
      F.EnsuresStep (evalIn c e hint) (Covered.By F.toDemand)) (hc : F.CoveredContext c) :
    F.EnsuresStep (x ⟨p, o, c, resolveIn, evalIn⟩) R := by
  have hglobal {c : Context} (hc : F.CoveredContext c) (id : GlobalId) :
      F.CoveredContext (c.openGlobal id) := ⟨by simp [Context.openGlobal], covers_void⟩
  have halias {c : Context} (hc : F.CoveredContext c) (id : AliasId) :
      F.CoveredContext (c.openAlias id) := ⟨by simp [Context.openAlias], hc.ret⟩
  induction hx with
  | pure h => exact .pure h
  | bind _ _ ihx ihf => exact .bind (ihx hc) fun a ha => ihf a ha hc
  | mono _ h ih => exact fun _ _ _ hs he hr => (ih hc hs he hr).imp_right (h _)
  | congr h _ ih => exact h _ ▸ ih hc
  | package _ ih => exact ih hc
  | options => exact fun _ _ _ hs he _ => by cases he; exact ⟨hs, trivial⟩
  | context _ _ ih | bound _ _ _ ih => exact ih hc hc
  | inUnsafe =>
    intro s a s' hs he _
    obtain ⟨-, rfl⟩ := gives_inUnsafe.of_run he
    exact ⟨hs, trivial⟩
  | lookupVar _ =>
    intro s a s' hs he _
    obtain ⟨-, rfl⟩ := (gives_lookupVar _).of_run he
    exact ⟨hs, trivial⟩
  | readVar _ _ ih =>
    intro s a s' hs he hr
    obtain ⟨found, s1, hlookup, he⟩ := run_bind.mp he
    obtain ⟨-, rfl⟩ := (gives_lookupVar _).of_run hlookup
    cases found with
    | none => exact ih hc hs he hr
    | some id =>
      obtain ⟨v, s2, huse, he⟩ := run_bind.mp he
      obtain ⟨rfl, rfl⟩ := (gives_useVar id).of_run huse
      obtain ⟨_, s3, hcount, he⟩ := run_bind.mp he
      cases he
      have hused : F.CoveredState (State.useVar _ id) :=
        { hs with vars := forall_mem_modify hs.vars fun _ h => h }
      exact ⟨coveredState_countVoidRead hused hcount, covers_varValue hs id⟩
  | @useLocalAlias c name _ =>
    intro s a s' hs he _
    obtain ⟨rfl, rfl⟩ := (gives_useLocalAlias name).of_run he
    refine ⟨coveredState_useAlias hs, fun u hu => ?_, fun hblock => by simp [Context.foundAlias, hblock]⟩
    obtain ⟨found, hfound, rfl⟩ := Option.map_eq_some_iff.mp hu
    exact covered_foundAlias hs name found hfound
  | since _ _ hsame ihx ihg =>
    intro s b s' hs he hr
    obtain ⟨out, a, s1, hxa, he⟩ := run_since hsame he
    have hle := (Step.le _ he).requests
    obtain ⟨hs1, ha⟩ := ihx hc hs hxa fun r hrt => hr r (hle.mem hrt)
    exact ihg out a ha hc hs1 he hr
  | output out _ hput _ hcovered =>
    intro s _ s' hs he hr
    cases he
    rw [hput] at hr ⊢
    refine ⟨coveredState_put hs hcovered, fun r hmem => hr r ?_⟩
    rw [(s.adds_put out).requests]
    exact List.mem_append_right _ hmem
  | aliasType hid h =>
    exact ensures_aliasType hid fun hpath => hresolve (halias hc _) (h hpath)
  | globalValue hid _ ih => exact ensures_globalValue hid fun hpath => ih hpath (hglobal hc _)
  | readGlobal hid _ ih =>
    intro s a s' hs he hr
    obtain ⟨v, s1, hv, he⟩ := run_bind.mp he
    obtain ⟨_, s2, hcount, he⟩ := run_bind.mp he
    cases he
    have hle := (Step.le _ hcount).requests
    obtain ⟨hs1, hv⟩ := ensures_globalValue hid (fun hpath => ih hpath (hglobal hc _)) hs hv
      fun r hrt => hr r (hle.mem hrt)
    exact ⟨coveredState_countVoidRead hs1 hcount, hv⟩
  | inTemplate hframe _ _ ih => exact .quietly (ih ⟨covered_pushFrame hc.bindings hframe, hc.ret⟩)
  | resolve ht => exact hresolve hc ht
  | evalAny he hh => exact heval hc he hh

/-- Without a demand the result is as said, whoever gives the answers. -/
theorem AsksFor.result {Q : Context → Part → Prop} {x : Check α} {a : α}
    (hx : AsksFor (.lax p Q) c x R) (h : (x ⟨p, o, c, resolveIn, evalIn⟩).run s = some (a, s')) : R a :=
  (hx.sound (fun _ _ _ _ _ _ _ _ => ⟨coveredState_lax _, fun _ _ => covers_lax _, nofun⟩)
    (fun _ _ _ _ _ _ _ _ _ => ⟨coveredState_lax _, covers_lax _⟩) (coveredContext_lax c)
    (coveredState_lax s) h fun _ _ => trivial).2

end Sound

/-! ## Places that agree -/

/-- The name stands for the same in both contexts. -/
structure Agree (c c' : Context) (scopes scopes' : Scopes) (name : String) : Prop where
  bound : c'.bindings.lookup? name = c.bindings.lookup? name
  template : c'.templates.contains name = c.templates.contains name
  var : c'.foundVar scopes' name = c.foundVar scopes name
  typeAlias : c'.foundAlias scopes' name = c.foundAlias scopes name

/-- What `Q` admits is the same in the contexts that `T` relates, from the states
that `V` relates. -/
structure Transfers (Q : Context → Part → Prop) (V : State → State → Prop)
    (T : Context → Context → Prop) : Prop extends Viewing V where
  aliasPath : ∀ {c c'}, T c c' → c'.aliasPath = c.aliasPath
  globalPath : ∀ {c c'}, T c c' → c'.globalPath = c.globalPath
  reportGlobals : ∀ {c c'}, T c c' → c'.reportGlobals = c.reportGlobals
  openAlias : ∀ {c c'}, T c c' → ∀ id, T (c.openAlias id) (c'.openAlias id)
  openGlobal : ∀ {c c'}, T c c' → ∀ id, T (c.openGlobal id) (c'.openGlobal id)
  openTemplate : ∀ {c c'}, T c c' → ∀ frame, T (c.openTemplate frame) (c'.openTemplate frame)
  whole : ∀ {c c'}, T c c' → Q c .context → c' = c
  inUnsafe : ∀ {c c' s t}, T c c' → V s t → c'.unsafeIn t.scopes.bare = c.unsafeIn s.scopes.bare
  agree : ∀ {c c' s t name}, T c c' → Q c (.name name) → V s t →
    Agree c c' s.scopes.bare t.scopes.bare name

section Mirrors

variable {p : Package} {Q : Context → Part → Prop} {V : State → State → Prop}
  {T : Context → Context → Prop} {c c' : Context} {o : Options} {R : α → Prop}
  {resolveIn resolveIn' : Context → TypeExpr → Step (Option Ty)}
  {evalIn evalIn' : Context → Expr → Option Ty → Step Value}

theorem mirrors_readVar (hV : Viewing V) {env : Env} (env' : Env) {t : State} {name : String}
    {id : VarId} {a : Value} (h : env.context.foundVar s.scopes.bare name = some (id, v))
    (h' : env'.context.foundVar t.scopes.bare name = some (id, v)) (hst : V s t)
    (hrun : (readVar id env).run s = some (a, s')) :
    ∃ t', (readVar id env').run t = some (a, t') ∧ V s' t' ∧
      ∃ out, s.Adds out s' ∧ t.Adds out t' := by
  obtain ⟨_, _, huse, hrun⟩ := run_bind.mp hrun
  obtain ⟨rfl, rfl⟩ := (gives_foundVar h).of_run huse
  obtain ⟨_, _, huse', rfl, rfl⟩ := gives_foundVar h'
  have hused : V (s.useVar id) (t.useVar id) :=
    hV.output hst fun s => State.view_scopes rfl (s.scopes.bare_modifyVar id)
  have hrest (v : Value) : ((do countVoidRead v; return v : Check Value) env).Mirrors V
      ((do countVoidRead v; return v : Check Value) env') :=
    .bind (mirrors_countVoidRead hV v) fun _ _ _ _ => .pure v
  obtain ⟨t', hrun', hst', out, hs, ht⟩ := hrest _ hrun hused
  exact ⟨t', run_bind.mpr ⟨_, _, huse', hrun'⟩, hst', out, { hs with },
    { ht with }⟩

/-- A check does the same in related contexts, whoever gives the answers, when
these do the same. -/
theorem AsksFor.mirrors {x : Check α} (hx : AsksFor (.lax p Q) c x R) (hT : Transfers Q V T)
    (hresolve : ∀ {c c' t}, T c c' → Q c (.type t) → (resolveIn c t).Mirrors V (resolveIn' c' t))
    (heval : ∀ {c c' e hint}, T c c' → Q c (.expr e) →
      (evalIn c e hint).Mirrors V (evalIn' c' e hint)) (hc : T c c') :
    (x ⟨p, o, c, resolveIn, evalIn⟩).Mirrors V (x ⟨p, o, c', resolveIn', evalIn'⟩) := by
  have hV := hT.toViewing
  induction hx generalizing c' with
  | pure _ => exact .pure _
  | @options c => exact fun s a s' h t hst => by cases h; exact ⟨t, rfl, hst, {}, .refl s, .refl t⟩
  | bind hx _ ihx ihf => exact .bind (ihx hc) fun a s s' hrun => ihf a (hx.result hrun) hc
  | mono _ _ ih | package _ ih => exact ih hc
  | congr h _ ih =>
    rw [h, h]
    exact ih hc
  | context h _ ih =>
    obtain rfl := hT.whole hc h
    exact ih (Demand.coveredContext_lax _) hc
  | bound h hread _ ih =>
    intro s a s' hrun t hst
    have hname := hT.agree hc h hst
    obtain ⟨t', hrun', hrest⟩ := ih (Demand.coveredContext_lax _) hc hrun hst
    rw [← hread c' hname.bound hname.template] at hrun'
    exact ⟨t', hrun', hrest⟩
  | inUnsafe =>
    intro s a s' hrun t hst
    obtain ⟨rfl, rfl⟩ := gives_inUnsafe.of_run hrun
    obtain ⟨_, _, hrun', rfl, rfl⟩ := gives_inUnsafe
    exact ⟨_, (hT.inUnsafe hc hst) ▸ hrun', hst, {}, .refl _, .refl _⟩
  | lookupVar h =>
    intro s a s' hrun t hst
    obtain ⟨rfl, rfl⟩ := (gives_lookupVar_bare _).of_run hrun
    obtain ⟨_, _, hrun', rfl, rfl⟩ := gives_lookupVar_bare _
    exact ⟨_, (hT.agree hc h hst).var ▸ hrun', hst, {}, .refl _, .refl _⟩
  | @readVar c name other h _ ih =>
    intro s a s' hrun t hst
    obtain ⟨_, s1, hlookup, hrun⟩ := run_bind.mp hrun
    obtain ⟨rfl, hs1⟩ := (gives_lookupVar_bare _).of_run hlookup
    subst s1
    obtain ⟨_, _, hlookup', rfl, rfl⟩ :
      Gives ⟨p, o, c', resolveIn', evalIn'⟩ t (Check.lookupVar name) _ := gives_lookupVar_bare name
    have hsame := (hT.agree hc h hst).var
    cases hfound : c.foundVar s.scopes.bare name with
    | none =>
      rw [hfound] at hsame hrun
      rw [hsame] at hlookup'
      obtain ⟨t', hrun', hrest⟩ := ih hc hrun hst
      exact ⟨t', run_bind.mpr ⟨_, _, hlookup', hrun'⟩, hrest⟩
    | some found =>
      rw [hfound] at hsame hrun
      rw [hsame] at hlookup'
      obtain ⟨t', hrun', hrest⟩ :=
        mirrors_readVar hV ⟨p, o, c', resolveIn', evalIn'⟩ hfound hsame hst hrun
      exact ⟨t', run_bind.mpr ⟨_, _, hlookup', hrun'⟩, hrest⟩
  | @useLocalAlias c name h =>
    intro s a s' hrun t hst
    obtain ⟨rfl, rfl⟩ := (gives_useLocalAlias name).of_run hrun
    obtain ⟨_, _, hrun', rfl, rfl⟩ :
      Gives ⟨p, o, c', resolveIn', evalIn'⟩ t (Check.useLocalAlias name) _ := gives_useLocalAlias name
    rw [(hT.agree hc h hst).typeAlias] at hrun'
    exact ⟨_, hrun', hV.output hst (State.view_useAlias name _), {}, .useAlias, .useAlias⟩
  | since hx _ hsame ihx ihg =>
    exact .since (ihx hc) hsame fun out a s s' hrun => ihg out a (hx.result hrun) hc
  | output out _ hput _ _ => exact mirrors_output hV out hput
  | aliasType _ h =>
    exact mirrors_aliasType hV (hT.aliasPath hc) fun hpath => hresolve (hT.openAlias hc _) (h hpath)
  | globalValue _ _ ih =>
    exact mirrors_globalValue hV (hT.globalPath hc) (hT.reportGlobals hc) fun hpath =>
      ih hpath (hT.openGlobal hc _)
  | readGlobal _ _ ih =>
    exact .bind (mirrors_globalValue hV (hT.globalPath hc) (hT.reportGlobals hc) fun hpath =>
      ih hpath (hT.openGlobal hc _)) fun v _ _ _ => .bind (mirrors_countVoidRead hV v) fun _ _ _ _ => .pure v
  | inTemplate _ _ _ ih => exact .quietly hV (ih (hT.openTemplate hc _))
  | resolve ht => exact hresolve hc ht
  | evalAny he _ => exact heval hc he

/-- A check does the same in one context and from states with the same scopes. -/
theorem AsksFor.mirrors_same {x : Check α} (hx : AsksFor (.lax p Q) c x R) (hV : Viewing V)
    (hscopes : ∀ {s t}, V s t → t.scopes.bare = s.scopes.bare)
    (hresolve : ∀ c t, Q c (.type t) → (resolveIn c t).Mirrors V (resolveIn' c t))
    (heval : ∀ c e hint, Q c (.expr e) → (evalIn c e hint).Mirrors V (evalIn' c e hint)) :
    (x ⟨p, o, c, resolveIn, evalIn⟩).Mirrors V (x ⟨p, o, c, resolveIn', evalIn'⟩) := by
  have hT : Transfers Q V Eq :=
    { hV with
      aliasPath := fun h => h ▸ rfl
      globalPath := fun h => h ▸ rfl
      reportGlobals := fun h => h ▸ rfl
      openAlias := fun h _ => h ▸ rfl
      openGlobal := fun h _ => h ▸ rfl
      openTemplate := fun h _ => h ▸ rfl
      whole := fun h _ => h.symm
      inUnsafe := fun h hst => by rw [h, hscopes hst]
      agree := fun h _ hst => by rw [h, hscopes hst]; exact ⟨rfl, rfl, rfl, rfl⟩ }
  refine hx.mirrors hT ?_ ?_ rfl
  · rintro c _ t rfl ht
    exact hresolve c t ht
  · rintro c _ e hint rfl he
    exact heval c e hint he

end Mirrors

/-! ## Whoever answers -/

theorem Step.Below.of_eq {x y : Step α} (h : x = y) : x.Below y := fun _ _ hx => h ▸ hx

theorem Step.Below.antisymm {x y : Step α} (h : x.Below y) (h' : y.Below x) : x = y := by
  have hrun : x.run = y.run := funext fun s => Option.ext fun r => ⟨fun hx => h hx, fun hy => h' hy⟩
  cases x
  cases y
  cases hrun
  rfl

theorem Step.Below.mirrors {x y : Step α} (h : x.Below y) : x.Mirrors Eq y := by
  rintro s a s' hrun _ rfl
  obtain ⟨out, hadds⟩ := (x.le hrun).adds
  exact ⟨s', h hrun, rfl, out, hadds, hadds⟩

theorem Step.Mirrors.below {x y : Step α} (h : x.Mirrors Eq y) : x.Below y := by
  rintro s ⟨a, s'⟩ hrun
  obtain ⟨_, hrun', rfl, -⟩ := h hrun rfl
  exact hrun'

/-- It does not matter who gives the answers that `Q` admits. -/
theorem AsksFor.below_of_extends {p : Package} {Q : Context → Part → Prop} {c : Context} {o : Options}
    {resolveIn resolveIn' : Context → TypeExpr → Step (Option Ty)}
    {evalIn evalIn' : Context → Expr → Option Ty → Step Value} {x : Check α} {R : α → Prop}
    (hx : AsksFor (.lax p Q) c x R) (h : Extends Q resolveIn resolveIn' evalIn evalIn') :
    (x ⟨p, o, c, resolveIn, evalIn⟩).Below (x ⟨p, o, c, resolveIn', evalIn'⟩) :=
  (hx.mirrors_same viewing_eq (fun h => h ▸ rfl) (fun c t ht => (h.resolve c t ht).mirrors)
    fun c e hint he => (h.eval c e hint he).mirrors).below

/-! ## Runs -/

/-- What happens while a check is run that asks for types and values. -/
inductive Ran (p : Package) (o : Options) (n : Nat) : Context → State → State → Prop
  | refl {c s} : Ran p o n c s s
  | trans {c s1 s2 s3} (h : Ran p o n c s1 s2) (h' : Ran p o n c s2 s3) (hle : s1.Le s2)
      (hle' : s2.Le s3) : Ran p o n c s1 s3
  | output {c s s' out} (heffect : Effect p s s') (hadds : s.Adds out s') (hview : s'.view = s.view)
      (hjumps : ∀ d ∈ out.diags, d.problem.ofJump = false) : Ran p o n c s s'
  | voidRead {c s} (h : VoidSource p s) : Ran p o n c s { s with voidReads := s.voidReads + 1 }
  | useVar {c s} (id : VarId) : Ran p o n c s
      { s with scopes := s.scopes.modifyVar id fun v => { v with used := true } }
  | mark {c s} (b : BlockId) (name : String) : Ran p o n c s { s with scopes := s.scopes.mark b name }
  | typeAlias {c s a s' id} (hid : p.HasAlias id) (h : AliasRun (envAt p o n c) id s a s') : Ran p o n c s s'
  | global {c s v s' id} (hid : p.HasGlobal id) (h : GlobalRun (envAt p o n c) id s v s')
      (hcompute : ∀ v s1, (computeGlobal (p.global id).decl (envAt p o n (c.openGlobal id))).run s =
        some (v, s1) → id ∉ c.globalPath → Ran p o n (c.openGlobal id) s s1) : Ran p o n c s s'
  | template {c s s' frame} (hrun : TemplateRun p o c.reportGlobals s s')
      (h : Ran p o n (c.openTemplate frame) s s') : Ran p o n c s { s' with diags := s.diags }
  | resolve {c t s a s'} (h : (resolveAt p o n c t).run s = some (a, s')) : Ran p o n c s s'
  | eval {c e hint s a s'} (h : (evalAt p o n c e hint).run s = some (a, s')) : Ran p o n c s s'

section Runs

variable {p : Package} {Q : Context → Part → Prop} {c : Context} {o : Options} {n : Nat}

theorem ran_countVoidRead {env : Env} {a : Unit} (hv : v.type.isVoid = true → VoidSource p s)
    (h : (countVoidRead v env).run s = some (a, s')) : Ran p o n c s s' := by
  unfold countVoidRead at h
  split at h
  next hvoid =>
    cases h
    exact .voidRead (hv hvoid)
  next =>
    cases h
    exact .refl

theorem AsksFor.ran {x : Check α} {R : α → Prop} (hx : AsksFor (.lax p Q) c x R) {a : α}
    (h : (x (envAt p o n c)).run s = some (a, s')) : Ran p o n c s s' := by
  induction hx generalizing s s' with
  | pure _ => cases h; exact .refl
  | options => cases h; exact .refl
  | bind hx _ ihx ihf =>
    obtain ⟨a, s1, hxa, hfa⟩ := run_bind.mp h
    exact .trans (ihx hxa) (ihf a (hx.result hxa) hfa) (Step.le _ hxa) (Step.le _ hfa)
  | mono _ _ ih | package _ ih => exact ih h
  | congr he _ ih => exact ih (he _ ▸ h)
  | context _ _ ih | bound _ _ _ ih => exact ih (Demand.coveredContext_lax _) h
  | inUnsafe =>
    obtain ⟨-, rfl⟩ := gives_inUnsafe.of_run h
    exact .refl
  | lookupVar =>
    obtain ⟨rfl, -⟩ := run_lookupVar h
    exact .refl
  | readVar _ _ ih =>
    obtain ⟨found, s1, hlookup, h⟩ := run_bind.mp h
    obtain ⟨rfl, hfound⟩ := run_lookupVar hlookup
    cases found with
    | none => exact ih h
    | some id =>
      obtain ⟨var, hvar⟩ := hfound id rfl
      obtain ⟨v, s2, huse, h⟩ := run_bind.mp h
      obtain ⟨_, s3, hcount, h⟩ := run_bind.mp h
      cases h
      have hle := Step.le _ huse
      obtain ⟨rfl, hsource⟩ := run_useVar hvar huse
      exact .trans (.useVar id) (ran_countVoidRead hsource hcount) hle (Step.le _ hcount)
  | @useLocalAlias c name _ =>
    obtain ⟨-, rfl⟩ := (gives_useLocalAlias name).of_run h
    generalize (envAt p o n c).context.foundAlias s.scopes.bare name = found
    cases found with
    | none => exact .refl
    | some found => exact .mark _ name
  | since hx _ hsame ihx ihg =>
    obtain ⟨out, a, s1, hxa, hk⟩ := run_since hsame h
    exact .trans (ihx hxa) (ihg out a (hx.result hxa) hk) (Step.le _ hxa) (Step.le _ hk)
  | output out heffect hput hjumps _ =>
    cases h
    exact .output (heffect _) (hput _ ▸ State.adds_put _ out) (by rw [hput]; rfl) hjumps
  | aliasType hid _ => exact .typeAlias hid (aliasRun_of_run h)
  | globalValue hid _ ih => exact .global hid (globalRun_of_run h) fun v s1 hrun hpath => ih hpath hrun
  | readGlobal hid _ ih =>
    obtain ⟨v, s1, hglobal, h⟩ := run_bind.mp h
    obtain ⟨_, s2, hcount, h⟩ := run_bind.mp h
    cases h
    have hrun := globalRun_of_run hglobal
    exact .trans (.global hid hrun fun v s1 hrun hpath => ih hpath hrun)
      (ran_countVoidRead (fun hvoid => voidSource_global hid hrun hvoid) hcount) (Step.le _ hglobal)
      (Step.le _ hcount)
  | inTemplate _ _ hrun ih =>
    obtain ⟨s1, hinner, rfl⟩ := run_quietly.mp h
    exact .template (hrun hinner) (ih hinner)
  | resolve => exact .resolve h
  | evalAny => exact .eval h

theorem Ran.trace (h : Ran p o n c s s') (hn : Level p o n fun c => Trace p o c.reportGlobals) :
    Trace p o c.reportGlobals s s' := by
  induction h with
  | refl => exact .refl _
  | trans _ _ _ _ ih ih' => exact .trans ih ih'
  | output heffect _ _ _ => exact .step heffect
  | voidRead h => exact .step (.voidRead h)
  | useVar id => exact .step (.useVar id)
  | mark b name => exact .step (.blocks _)
  | @typeAlias c s a s' id hid h =>
    cases h with
    | typed _ | broken _ _ | cyclic _ _ | answered _ _ _ _ => exact .refl s
    | cycle _ _ => exact .step .closeCycle
    | opened _ _ hrun => exact .trans (hn.resolve (c := c.openAlias id) hrun) (.step .remember)
  | global hid h _ ih => exact trace_globalRun hid (fun hpath _ _ hrun => ih _ _ hrun hpath) h
  | template hrun _ ih => exact .template hrun ih
  | resolve h => exact hn.resolve h
  | eval h => exact hn.eval h

theorem Ran.jumpFree (h : Ran p o n c s s') (hn : Level p o n fun _ => State.JumpFree) :
    s.JumpFree s' := by
  induction h with
  | refl | voidRead _ | useVar _ | mark _ _ | template _ _ _ => exact State.raises_of_diags rfl
  | trans _ _ hle hle' ih ih' => exact ih.trans ih' hle hle'
  | output _ hadds _ hjumps =>
    rw [State.JumpFree, State.Raises, hadds.added]
    exact hjumps
  | @typeAlias c s a s' id hid h =>
    cases h with
    | typed _ | broken _ _ | cyclic _ _ | answered _ _ _ _ => exact State.raises_of_diags rfl
    | cycle _ _ => exact State.raises_push rfl rfl
    | opened _ _ hrun => exact fun d hd => hn.resolve (c := c.openAlias id) hrun d hd
  | @global c s v s' id hid h _ ih =>
    cases h with
    | valued _ | cyclic _ _ | answered _ _ _ => exact State.raises_of_diags rfl
    | cycle _ _ => exact State.raises_push rfl rfl
    | @computed v s1 _ hpath hrun =>
      show s.JumpFree ((s1.heard s c.reportGlobals).rememberGlobal id v)
      cases c.reportGlobals with
      | false => exact State.raises_of_diags rfl
      | true => exact fun d hd => ih v s1 hrun hpath d hd
  | resolve h => exact hn.resolve h
  | eval h => exact hn.eval h

/-- Only marks change, and nothing if all names of the package are resolved. -/
theorem Ran.beside (h : Ran p o n c s s')
    (hn : Level p o n fun _ s s' => s.Beside s' ∧ (p.Resolved → s'.view = s.view)) :
    s.Beside s' ∧ (p.Resolved → s'.view = s.view) := by
  have same {s s' : State} (h : s'.view = s.view) : s.Beside s' ∧ (p.Resolved → s'.view = s.view) :=
    ⟨State.beside_of_view h, fun _ => h⟩
  induction h with
  | refl | voidRead _ => exact same rfl
  | trans _ _ _ _ ih ih' => exact ⟨ih.1.trans ih'.1, fun hp => (ih'.2 hp).trans (ih.2 hp)⟩
  | output _ _ hview _ => exact same hview
  | @useVar c s id => exact same (State.view_scopes rfl (s.scopes.bare_modifyVar id))
  | @mark c s b name => exact same (State.view_scopes rfl (s.scopes.bare_mark b name))
  | @typeAlias c s a s' id hid h =>
    have hno (hp : p.Resolved) : ¬Fresh p id s := fun hfresh => by
      rcases hp.aliases id hid with ⟨t, ht⟩ | hbroken
      · cases ht.symm.trans hfresh.type
      · exact hfresh.unbroken hbroken
    cases h with
    | typed _ | broken _ _ | cyclic _ _ | answered _ _ _ _ => exact same rfl
    | cycle hfresh _ => exact ⟨⟨rfl, rfl, rfl⟩, fun hp => absurd hfresh (hno hp)⟩
    | opened hfresh _ hrun =>
      have hinner := (hn.resolve (c := c.openAlias id) hrun).1
      exact ⟨{ hinner with }, fun hp => absurd hfresh (hno hp)⟩
  | @global c s v s' id hid h _ ih =>
    cases h with
    | valued _ | cyclic _ _ | answered _ _ _ => exact same rfl
    | cycle hfresh _ => exact ⟨⟨rfl, rfl, rfl⟩, fun hp => absurd hfresh.value (hp.globals id hid)⟩
    | @computed v s1 hfresh hpath hrun =>
      have hinner := (ih v s1 hrun hpath).1
      refine ⟨?_, fun hp => absurd hfresh.value (hp.globals id hid)⟩
      show s.Beside ((s1.heard s c.reportGlobals).rememberGlobal id v)
      cases c.reportGlobals <;> exact { hinner with }
  | template _ _ ih => exact ⟨⟨ih.1.scopes, ih.1.labels, ih.1.gotos⟩, ih.2⟩
  | resolve h => exact hn.resolve h
  | eval h => exact hn.eval h

end Runs

end Check

end JaneCheck
