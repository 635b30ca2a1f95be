import JaneCheck.Check.Definition
import JaneCheck.Proofs.Runs
import JaneCheck.Proofs.Within

/-!
# Demand for instances

A struct type with type arguments is an instance, and whoever forms one has to
ask for it. `Demand` fixes what is asked for in the end and the places that
findings may have, and `Covers` says of a type that every instance in it is
among what is asked for. `Ensures` is the judgement on checks: from a state whose
types are covered and whose findings lie at those places a check reaches one of
the same kind, and something holds of its result, provided that what it asks for
is in the demand. Since steps take no request back, it is enough to know this of
the last state. With `Keeps` the result is covered too.
-/

namespace JaneCheck

namespace Ty

/-- The types that a type is built from. -/
@[simp] def parts : Ty → List Ty
  | .pointer t | .reference t | .slice t | .array t _ => [t]
  | .map k v => [k, v]
  | .tuple ts => ts
  | .function sig => sig.params.map (·.type) ++ [sig.ret]
  | .struct _ _ gs => gs
  | .base _ | .generic _ | .trait _ _ | .enum _ _ => []

/-- The type is the other one or stands somewhere in it. -/
inductive Occurs (u : Ty) : Ty → Prop
  | self : Occurs u u
  | part {v t : Ty} (h : v ∈ t.parts) (ho : Occurs u v) : Occurs u t

end Ty

/-- What is asked for in the end and where, beside the outline of the package,
which does not change. A demand that is not strict says nothing of types. -/
structure Demand extends Outline where
  strict : Prop
  request : Request → Prop
  span : Span → Prop

namespace Demand

variable (D : Demand)

/-- The struct has the name, and its instance is asked for. Nothing is asked
without type arguments or while one is unknown. -/
def Formed (id : StructId) (name : String) (gs : List Ty) : Prop :=
  D.strict → name = D.name id ∧ (gs = [] ∨ gs.any Ty.hasGeneric = true ∨
    gs.length = D.arity id ∧ ∃ span, D.request ⟨.struct id, gs, span⟩)

def Covers (t : Ty) : Prop :=
  ∀ id name gs, (Ty.struct id name gs).Occurs t → D.Formed id name gs

/-- The type is what the target of the alias denotes. -/
def Target (id : AliasId) (t : Ty) : Prop :=
  D.strict → D.Denotes (fun _ => none) (D.target id) t

def Declares (id : FuncId) : Prop := D.strict → (D.function id).Within D.span

variable {D}

theorem Covers.part {t u : Ty} (h : D.Covers t) (hu : u ∈ t.parts) : D.Covers u :=
  fun id name gs ho => h id name gs (.part hu ho)

theorem Covers.of {t : Ty} (h : D.strict → D.Covers t) : D.Covers t :=
  fun id name gs ho hstrict => h hstrict id name gs ho hstrict

theorem covers_of_parts {t : Ty} (h : ∀ u ∈ t.parts, D.Covers u)
    (ht : ∀ id name gs, t = .struct id name gs → D.Formed id name gs) : D.Covers t := by
  intro id name gs ho
  cases ho with
  | self => exact ht id name gs rfl
  | part hv ho => exact h _ hv id name gs ho

section Shapes

variable {t k v : Ty} {ts : List Ty}

theorem covers_iff_parts (ht : ∀ id name gs, t ≠ .struct id name gs) :
    D.Covers t ↔ ∀ u ∈ t.parts, D.Covers u :=
  ⟨fun h _ => h.part, fun h => covers_of_parts h fun id name gs he => (ht id name gs he).elim⟩

@[simp] theorem covers_base (c : Category) : D.Covers (.base c) := by simp [covers_iff_parts]

@[simp] theorem covers_generic (name : String) : D.Covers (.generic name) := by
  simp [covers_iff_parts]

@[simp] theorem covers_trait (id : TraitId) (name : String) : D.Covers (.trait id name) := by
  simp [covers_iff_parts]

@[simp] theorem covers_enum (id : EnumId) (name : String) : D.Covers (.enum id name) := by
  simp [covers_iff_parts]

@[simp] theorem covers_pointer : D.Covers (.pointer t) ↔ D.Covers t := by simp [covers_iff_parts]

@[simp] theorem covers_reference : D.Covers (.reference t) ↔ D.Covers t := by
  simp [covers_iff_parts]

@[simp] theorem covers_slice : D.Covers (.slice t) ↔ D.Covers t := by simp [covers_iff_parts]

@[simp] theorem covers_array {n : Option UInt64} : D.Covers (.array t n) ↔ D.Covers t := by
  simp [covers_iff_parts]

@[simp] theorem covers_map : D.Covers (.map k v) ↔ D.Covers k ∧ D.Covers v := by
  simp [covers_iff_parts]

@[simp] theorem covers_tuple : D.Covers (.tuple ts) ↔ ∀ t ∈ ts, D.Covers t := by
  simp [covers_iff_parts]

@[simp] theorem covers_function {sig : FnSig} :
    D.Covers (.function sig) ↔ (∀ p ∈ sig.params, D.Covers p.type) ∧ D.Covers sig.ret := by
  simp [covers_iff_parts, or_imp, forall_and]

@[simp] theorem covers_struct {id : StructId} {name : String} :
    D.Covers (.struct id name ts) ↔ D.Formed id name ts ∧ ∀ t ∈ ts, D.Covers t :=
  ⟨fun h => ⟨h id name ts .self, fun t ht => h.part ht⟩,
    fun h => covers_of_parts h.2 (by rintro _ _ _ ⟨⟩; exact h.1)⟩

/-! ## Parts of types -/

theorem Covers.core (h : D.Covers t) : D.Covers t.core := by
  fun_induction Ty.core t with
  | case1 t ih => exact ih (covers_pointer.mp h)
  | case2 t ih => exact ih (covers_reference.mp h)
  | case3 => exact h

theorem Covers.elem (h : D.Covers t) : D.Covers t.elem := by
  unfold Ty.elem
  split
  · exact covers_pointer.mp h
  · exact covers_reference.mp h
  · exact h

theorem Covers.component (h : D.Covers t) : ∀ e ∈ t.component?, D.Covers e := by
  have hc := h.core
  unfold Ty.component?
  split
  next e he => rw [he] at hc; rintro _ ⟨⟩; exact covers_slice.mp hc
  next e n he => rw [he] at hc; rintro _ ⟨⟩; exact covers_array.mp hc
  next => rintro _ ⟨⟩

theorem Covers.components (h : D.Covers t) : ∀ e ∈ t.components, D.Covers e := by
  have hc := h.core
  unfold Ty.components
  split
  next k v he =>
    rw [he] at hc
    have hkv := covers_map.mp hc
    simpa using hkv
  next ts he => rw [he] at hc; exact covers_tuple.mp hc
  next => simp

theorem Covers.signature (h : D.Covers t) :
    ∀ sig ∈ t.signature?, (∀ p ∈ sig.params, D.Covers p.type) ∧ D.Covers sig.ret := by
  have hc := h.core
  unfold Ty.signature?
  split
  next sig he => rw [he] at hc; rintro _ ⟨⟩; exact covers_function.mp hc
  next => rintro _ ⟨⟩

theorem Covers.struct (h : D.Covers t) : ∀ s ∈ t.struct?, ∀ g ∈ s.2, D.Covers g := by
  have hc := h.core
  unfold Ty.struct?
  split
  next id name gs he => rw [he] at hc; rintro _ ⟨⟩; exact (covers_struct.mp hc).2
  next => rintro _ ⟨⟩

end Shapes

/-! ## Data with types -/

/-- What it means that all types in some data are covered; other data have none. -/
class Covered (α : Type) where
  By (D : Demand) : α → Prop

instance (priority := low) : Covered α := ⟨fun _ _ => True⟩
instance : Covered Ty := ⟨Covers⟩
instance : Covered Value := ⟨fun D v => D.Covers v.type⟩
instance : Covered (Param Ty) := ⟨fun D p => D.Covers p.type⟩
instance : Covered FnSig := ⟨fun D sig => D.Covers (.function sig)⟩
instance : Covered Var := ⟨fun D v => D.Covers v.type ∧ D.span v.span⟩
instance : Covered LocalAlias := ⟨fun D a => D.Covers a.type ∧ D.span a.span⟩
instance : Covered FieldInfo := ⟨fun D f => D.Covers f.type⟩
instance : Covered TraitMethod := ⟨fun D m => D.Covers (.function m.sig)⟩
instance : Covered Typing := ⟨fun D t => D.Covers t.type ∧ D.span t.span⟩
instance [Covered α] : Covered (List α) := ⟨fun D as => ∀ a ∈ as, Covered.By D a⟩
instance [Covered α] : Covered (Option α) := ⟨fun D o => ∀ a ∈ o, Covered.By D a⟩
instance [Covered α] [Covered β] : Covered (α × β) :=
  ⟨fun D p => Covered.By D p.1 ∧ Covered.By D p.2⟩

/-- A request for types that are covered, from a place where requests are made. -/
structure Sound (D : Demand) (r : Request) : Prop where
  types : ∀ t ∈ r.types, D.Covers t
  place : D.span r.span
  arity : D.strict → ∀ id, r.template = .struct id → r.types.length = D.arity id
  noEnum : D.strict → ∀ id, r.template = .struct id → ∀ t ∈ r.types, t.isEnum = false
  decl : ∀ id, r.template = .func id → D.Declares id

def CoveredMember (D : Demand) : Check.Member → Prop
  | .value v => D.Covers v.type
  | .method id owner => D.Declares id ∧ ∀ t ∈ owner, D.Covers t

def CoveredCallee (D : Demand) : Check.Callee → Prop
  | .known sig => D.Covers (.function sig)
  | .template id owner => D.Declares id ∧ ∀ t ∈ owner, D.Covers t

instance : Covered Check.Member := ⟨CoveredMember⟩
instance : Covered Check.Callee := ⟨CoveredCallee⟩
instance : Covered Inferred := ⟨fun D i => ∀ b ∈ i.bindings, D.Covers b.2⟩

structure CoveredState (D : Demand) (s : Check.State) : Prop where
  diags : ∀ d ∈ s.diags.toList, D.span d.span
  typings : ∀ t ∈ s.typings.toList, Covered.By D t
  requests : ∀ r ∈ s.requests.toList, D.Sound r
  vars : ∀ v ∈ s.scopes.vars.toList, Covered.By D v
  aliases : ∀ b ∈ s.scopes.blocks.toList, Covered.By D b.aliases
  labels : ∀ l ∈ s.labels, D.span l.span
  gotos : ∀ g ∈ s.gotos, D.span g.span
  aliasCache : ∀ e ∈ s.aliasCache, ∀ t ∈ e.2, D.Covers t ∧ D.Target e.1 t
  globalCache : Covered.By D s.globalCache

structure CoveredContext (D : Demand) (c : Check.Context) : Prop where
  bindings : ∀ frame ∈ c.bindings.frames, Covered.By D frame
  ret : D.Covers c.func.ret

structure CoveredStruct (D : Demand) (id : StructId) (s : StructInfo) : Prop where
  name : s.name = D.name id
  arity : s.generics.length = D.arity id
  fields : ∀ f ∈ s.fields, D.Covers f.type
  decl : ∀ f ∈ s.decl.fields, f.Within D.span
  methods : ∀ m ∈ s.methods, D.owner m.2 = some id

structure CoveredFunc (D : Demand) (id : FuncId) (f : FuncInfo) : Prop where
  owner : f.owner = D.owner id
  sig : D.Covers (.function f.sig)
  decl : f.decl = D.function id

structure CoveredTrait (D : Demand) (id : TraitId) (t : TraitInfo) : Prop where
  name : t.name = D.traitName id
  methods : Covered.By D t.methods
  decl : ∀ m ∈ t.decl.methods, m.Within D.span

structure CoveredEnum (D : Demand) (id : EnumId) (e : EnumInfo) : Prop where
  name : e.name = D.enumName id
  base : D.Covers e.base

structure CoveredAlias (D : Demand) (id : AliasId) (a : AliasInfo) : Prop where
  decl : a.decl = D.typeAlias id
  type : ∀ t ∈ a.type, D.Covers t ∧ D.Target id t

structure CoveredGlobal (D : Demand) (id : GlobalId) (g : GlobalInfo) : Prop where
  decl : g.decl = D.global id
  value : Covered.By D g.value

/-- What a name or a struct leads to lies at the places of the demand. An id that
nothing leads to may stand for no declaration. -/
structure Placed (D : Demand) : Prop where
  typeAlias {name id} : D.meaning name = some (.typeAlias id) → (D.typeAlias id).Within D.span
  global {name id} : D.meaning name = some (.global id) → (D.global id).Within D.span
  function {name id} : D.meaning name = some (.func id) → (D.function id).Within D.span
  method {id owner} : D.owner id = some owner → (D.function id).Within D.span

structure CoveredPackage (D : Demand) (p : Package) : Prop where
  strict : D.strict
  placed : D.Placed
  within : p.Within D.span
  meaning (name : String) : p.lookup? name = D.meaning name
  structs (id : StructId) : D.CoveredStruct id (p.struct id)
  traits (id : TraitId) : D.CoveredTrait id (p.trait id)
  enums (id : EnumId) : D.CoveredEnum id (p.enum id)
  funcs (id : FuncId) : D.CoveredFunc id (p.func id)
  aliases (id : AliasId) : D.CoveredAlias id (p.typeAlias id)
  globals (id : GlobalId) : D.CoveredGlobal id (p.global id)

instance : Covered Check.State := ⟨CoveredState⟩
instance : Covered Check.Context := ⟨CoveredContext⟩
instance : Covered Package := ⟨CoveredPackage⟩

section Data

variable {D : Demand}

theorem covered_none [Covered α] : Covered.By D (none : Option α) := by rintro _ ⟨⟩

theorem covered_some [Covered α] {a : α} (h : Covered.By D a) : Covered.By D (some a) := by
  rintro _ ⟨⟩; exact h

theorem covered_nil [Covered α] : Covered.By D ([] : List α) := by rintro _ ⟨⟩

theorem covered_cons [Covered α] {a : α} {as : List α} (h : Covered.By D a)
    (hs : Covered.By D as) : Covered.By D (a :: as) :=
  List.forall_mem_cons.mpr ⟨h, hs⟩

theorem covered_append [Covered α] {as bs : List α} (ha : Covered.By D as)
    (hb : Covered.By D bs) : Covered.By D (as ++ bs) :=
  List.forall_mem_append.mpr ⟨ha, hb⟩

theorem covered_lookup [BEq κ] [LawfulBEq κ] [Covered κ] [Covered α] {es : List (κ × α)}
    (h : Covered.By D es) (key : κ) : Covered.By D (es.lookup key) := by
  intro a ha
  obtain ⟨before, after, rfl, -⟩ := List.lookup_eq_some_iff.mp ha
  exact (h (key, a) (by simp)).2

theorem covered_zip {names : List String} {types : List Ty} (h : ∀ t ∈ types, D.Covers t) :
    Covered.By D (names.zip types) :=
  fun _ hb => ⟨trivial, h _ (List.of_mem_zip hb).2⟩

theorem covered_pushFrame {b : Bindings} {frame : List (String × Ty)}
    (hb : ∀ f ∈ b.frames, Covered.By D f) (hf : Covered.By D frame) :
    ∀ f ∈ (b.pushFrame frame).frames, Covered.By D f :=
  List.forall_mem_cons.mpr ⟨fun e he => hf e (List.mem_reverse.mp he), hb⟩

theorem covered_bindings {c : Check.Context} (hc : D.CoveredContext c) (name : String) :
    Covered.By D (c.bindings.lookup? name) := by
  intro t ht
  obtain ⟨b, hb, rfl⟩ := Option.map_eq_some_iff.mp ht
  obtain ⟨frame, hframe, hmem⟩ := List.mem_flatten.mp (List.mem_of_find?_eq_some hb)
  exact (hc.bindings frame hframe b hmem).2

theorem covers_void : D.Covers .void := covers_base _

theorem covers_getD {o : Option Ty} (h : Covered.By D o) : D.Covers (o.getD .void) := by
  cases o with
  | none => exact covers_void
  | some t => exact h t rfl

theorem forall_mem_snoc {P : α → Prop} {as : List α} {a : α} (h : ∀ b ∈ as, P b) (ha : P a) :
    ∀ b ∈ as ++ [a], P b :=
  List.forall_mem_append.mpr ⟨h, List.forall_mem_singleton.mpr ha⟩

theorem forall_mem_push {P : α → Prop} {as : Array α} {a : α} (h : ∀ b ∈ as.toList, P b)
    (ha : P a) : ∀ b ∈ (as.push a).toList, P b := by
  rw [Array.toList_push]
  exact forall_mem_snoc h ha

theorem forall_mem_modify {P : α → Prop} {as : Array α} {i : Nat} {f : α → α}
    (h : ∀ b ∈ as.toList, P b) (hf : ∀ b, P b → P (f b)) : ∀ b ∈ (as.modify i f).toList, P b := by
  intro b hb
  rw [Array.mem_toList_iff, Array.mem_iff_getElem] at hb
  obtain ⟨j, hj, rfl⟩ := hb
  have hj : j < as.size := by simpa using hj
  have hold : P as[j] := h _ (by simp)
  rw [Array.getElem_modify]
  split
  · exact hf _ hold
  · exact hold

theorem getD_mem [Inhabited α] {as : Array α} {i : Nat} (h : i < as.size) :
    as.getD i default ∈ as := by
  rw [Array.getD_eq_getD_getElem?, Array.getElem?_eq_getElem h]
  exact Array.getElem_mem h

/-- What a block reports as unused was declared in the program. -/
theorem CoveredState.unused {s : Check.State} (hs : D.CoveredState s) (b : BlockId) :
    ∀ u ∈ s.scopes.unused b, D.span u.2 := by
  unfold Scopes.unused
  split
  · simp
  next block hblock =>
    intro u hu
    rcases List.mem_append.mp hu with hu | hu
    · obtain ⟨v, hv, rfl⟩ := List.mem_map.mp hu
      obtain ⟨id, -, hid⟩ := List.mem_filterMap.mp (List.mem_filter.mp hv).1
      exact (hs.vars v (Array.mem_toList_iff.mpr (Array.mem_of_getElem? hid))).2
    · obtain ⟨a, ha, rfl⟩ := List.mem_map.mp hu
      have hmem : block ∈ s.scopes.blocks.toList :=
        Array.mem_toList_iff.mpr (Array.mem_of_getElem? hblock)
      exact (hs.aliases block hmem a (List.mem_reverse.mp (List.mem_filter.mp ha).1)).2

end Data

/-! ## The judgement -/

section Judgement

open Check

/-- A step that keeps all covered and gives a result with `R`, as long as the
demand has what it asks for. -/
def EnsuresStep (D : Demand) (x : Step α) (R : α → Prop) : Prop :=
  ∀ ⦃s a s'⦄, D.CoveredState s → x.run s = some (a, s') →
    (∀ r ∈ s'.requests.toList, D.request r) → D.CoveredState s' ∧ R a

/-- The type that was found is covered and, at package level, the one denoted. -/
structure Meant (D : Demand) (c : Context) (t : Syntax.TypeExpr) (o : Option Ty) : Prop where
  covers : ∀ u ∈ o, D.Covers u
  denotes : D.strict → c.block = none → ∀ u ∈ o, D.Denotes c.bound t u

structure CoveredEnv (D : Demand) (env : Env) : Prop where
  package : D.CoveredPackage env.package
  context : D.CoveredContext env.context
  resolveIn {c t} : D.CoveredContext c → t.Within D.span →
    D.EnsuresStep (env.resolveIn c t) (D.Meant c t)
  evalIn {c e hint} : D.CoveredContext c → e.Within D.span → Covered.By D hint →
    D.EnsuresStep (env.evalIn c e hint) (Covered.By D)

variable {D : Demand} {M : α → Prop} {R : β → Prop} {env : Env}

theorem EnsuresStep.pure {a : α} (h : M a) : D.EnsuresStep ((Pure.pure a : Check α) env) M := by
  intro s _ _ hs he _
  cases he
  exact ⟨hs, h⟩

theorem EnsuresStep.bind {x : Check α} {f : α → Check β} (hx : D.EnsuresStep (x env) M)
    (hf : ∀ a, M a → D.EnsuresStep (f a env) R) : D.EnsuresStep ((x >>= f) env) R := by
  intro s b s' hs he hr
  obtain ⟨a, t, ht, he⟩ := run_bind.mp he
  -- what the continuation asks for includes what the first part asked for
  have hle : t.requests.toList <+: s'.requests.toList := ((f a env).le he).requests
  obtain ⟨hs', ha⟩ := hx hs ht fun r hrt => hr r (hle.mem hrt)
  exact hf a ha hs' he hr

theorem EnsuresStep.quietly {x : Check α} (hx : D.EnsuresStep (x env) M) :
    D.EnsuresStep (quietly x env) M := by
  intro s a s' hs he hr
  obtain ⟨t, ht, rfl⟩ := run_quietly.mp he
  obtain ⟨ht', ha⟩ := hx hs ht hr
  exact ⟨{ ht' with diags := hs.diags }, ha⟩

end Judgement

/-! ## A demand that says nothing -/

section Lax

variable {p : Package}

def lax (p : Package) : Demand :=
  { p.outline with strict := False, request := fun _ => True, span := fun _ => True }

theorem covers_lax (t : Ty) : (lax p).Covers t := nofun

theorem covered_lax (hint : Option Ty) : Covered.By (lax p) hint := fun _ _ => covers_lax _

theorem coveredContext_lax (c : Check.Context) : (lax p).CoveredContext c :=
  ⟨fun _ _ _ _ => ⟨trivial, covers_lax _⟩, covers_lax _⟩

theorem sound_lax (r : Request) : (lax p).Sound r :=
  ⟨fun _ _ => covers_lax _, trivial, nofun, nofun, fun _ _ => nofun⟩

theorem coveredState_lax (s : Check.State) : (lax p).CoveredState s where
  diags _ _ := trivial
  typings _ _ := ⟨covers_lax _, trivial⟩
  requests _ _ := sound_lax _
  vars _ _ := ⟨covers_lax _, trivial⟩
  aliases _ _ _ _ := ⟨covers_lax _, trivial⟩
  labels _ _ := trivial
  gotos _ _ := trivial
  aliasCache _ _ _ _ := ⟨covers_lax _, nofun⟩
  globalCache _ _ := ⟨trivial, covers_lax _⟩

end Lax

end Demand

/-- The demand has all that is asked for. -/
def Check.Guard.grants (D : Demand) : Guard where
  holds s := ∀ r ∈ s.requests.toList, D.request r
  of_le hle h r hr := h r (hle.requests.mem hr)

end JaneCheck
