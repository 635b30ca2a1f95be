import JaneCheck.Check.Resolve

/-!
# What a type expression denotes

`Denotes O b t u` says what a type expression denotes without running a check.
`O` is the outline of the package: what its declarations say before any of them
is resolved. `b` gives the types of the names that are bound where `t` stands,
type parameters all of them. A name of an alias denotes what the target of the
alias denotes. The size of an array is left open; the rest of the type is not.
-/

namespace JaneCheck

open Syntax (TypeExpr)

/-! ## Parts of type expressions -/

namespace Syntax.TypeExpr

/-- The type expressions that a type expression is built from. -/
@[simp] def parts : TypeExpr → List TypeExpr
  | .named _ gs _ => gs
  | .pointer t _ | .reference t _ | .slice t _ | .array _ t _ => [t]
  | .map k v _ => [k, v]
  | .function ts _ r _ => ts ++ r.toList
  | .tuple ts _ => ts
  | .rawPointer _ => []

/-- The type expression is the other one or stands somewhere in it. -/
inductive Occurs (u : TypeExpr) : TypeExpr → Prop
  | self : Occurs u u
  | part {v t : TypeExpr} (h : v ∈ t.parts) (ho : Occurs u v) : Occurs u t

end Syntax.TypeExpr

/-! ## Outlines -/

/-- What the declarations of a package say before any of them is resolved. -/
structure Outline where
  meaning : String → Option Meaning
  name : StructId → String
  arity : StructId → Nat
  owner : FuncId → Option StructId
  traitName : TraitId → String
  enumName : EnumId → String
  function : FuncId → Syntax.Function
  global : GlobalId → Syntax.GlobalDef
  typeAlias : AliasId → Syntax.TypeAlias

def Package.outline (p : Package) : Outline where
  meaning := p.lookup?
  name id := (p.struct id).name
  arity id := (p.struct id).generics.length
  owner id := (p.func id).owner
  traitName id := (p.trait id).name
  enumName id := (p.enum id).name
  function id := (p.func id).decl
  global id := (p.global id).decl
  typeAlias id := (p.typeAlias id).decl

/-- The types of the names that are bound in a context. -/
def Check.Context.bound (c : Context) (name : String) : Option Ty :=
  (c.bindings.lookup? name).or (if c.templates.contains name then some (.generic name) else none)

namespace Outline

variable (O : Outline)

def target (id : AliasId) : TypeExpr := (O.typeAlias id).target

/-- What a name stands for where a type is expected. -/
inductive Referent where
  | type (u : Ty)
  | defined (m : Meaning)

/-- A bound name comes first, then those known everywhere, then the package. -/
def referent? (b : String → Option Ty) (name : String) : Option Referent :=
  match b name with
  | some u => some (.type u)
  | none =>
    match Category.ofName? name with
    | some c => some (.type (.base c))
    | none =>
      match builtinType? name with
      | some u => some (.type u)
      | none => (O.meaning name).map .defined

inductive Denotes : (String → Option Ty) → TypeExpr → Ty → Prop
  | known {b name span u} (h : O.referent? b name.name = some (.type u)) :
      Denotes b (.named name [] span) u
  | typeAlias {b name span id u} (h : O.referent? b name.name = some (.defined (.typeAlias id)))
      (ht : Denotes (fun _ => none) (O.target id) u) : Denotes b (.named name [] span) u
  | enum {b name span id} (h : O.referent? b name.name = some (.defined (.enum id))) :
      Denotes b (.named name [] span) (.enum id (O.enumName id))
  | trait {b name span id} (h : O.referent? b name.name = some (.defined (.trait id))) :
      Denotes b (.named name [] span) (.trait id (O.traitName id))
  | struct {b name gs span id us} (h : O.referent? b name.name = some (.defined (.struct id)))
      (hgs : O.arity id = gs.length) (hlen : us.length = gs.length)
      (hus : ∀ e ∈ gs.zip us, Denotes b e.1 e.2) (henum : ∀ u ∈ us, u.isEnum = false) :
      Denotes b (.named name gs span) (.struct id (O.name id) us)
  | pointer {b t span u} (h : Denotes b t u) (hr : u.isReference = false)
      (hp : u.isRawPointer = false) : Denotes b (.pointer t span) (.pointer u)
  | reference {b t span u} (h : Denotes b t u) (hv : u.validForReference = true) :
      Denotes b (.reference t span) (.reference u)
  | rawPointer {b span} : Denotes b (.rawPointer span) .rawPointer
  | slice {b t span u} (h : Denotes b t u) : Denotes b (.slice t span) (.slice u)
  | array {b size t span u n} (h : Denotes b t u) (hn : n.isSome = size.isSome) :
      Denotes b (.array size t span) (.array u n)
  | map {b k v span k' v'} (hk : Denotes b k k') (hv : Denotes b v v') :
      Denotes b (.map k v span) (.map k' v')
  | function {b ts variadic r span us ret} (hlen : us.length = ts.length)
      (hus : ∀ e ∈ ts.zip us, Denotes b e.1 e.2) (hret : ∀ t ∈ r, Denotes b t ret)
      (hvoid : r = none → ret = .void) :
      Denotes b (.function ts variadic r span)
        (.function (Check.signature (Check.unnamedParams variadic us) ret false false))
  | tuple {b ts span us} (hlen : us.length = ts.length)
      (hus : ∀ e ∈ ts.zip us, Denotes b e.1 e.2) : Denotes b (.tuple ts span) (.tuple us)

/-- The type is written as `void`, or as the name of an alias whose target is. -/
inductive WrittenVoid : TypeExpr → Prop
  | void {name span} (h : name.name = "void") : WrittenVoid (.named name [] span)
  | typeAlias {name span id} (h : O.meaning name.name = some (.typeAlias id))
      (ht : WrittenVoid (O.target id)) : WrittenVoid (.named name [] span)

variable {O}

section Names

variable {b b' : String → Option Ty} {name : String}

theorem referent?_bound {u : Ty} (h : b name = some u) : O.referent? b name = some (.type u) := by
  simp [referent?, h]

theorem meaning_of_referent? {m : Meaning} (h : O.referent? b name = some (.defined m)) :
    O.meaning name = some m := by
  unfold referent? at h
  repeat' split at h
  all_goals simp_all

/-- A name that stands for void is bound to it, or is `void`. -/
theorem referent?_void (h : O.referent? b name = some (.type .void)) :
    b name = some .void ∨ name = "void" := by
  unfold referent? at h
  split at h
  next u hu =>
    cases h
    exact .inl hu
  split at h
  next c hc =>
    cases h
    have hname : Category.void.name = name := by simpa using List.find?_some hc
    exact .inr hname.symm
  split at h
  next u hu =>
    cases h
    unfold builtinType? at hu
    repeat' split at hu
    all_goals cases hu
  next => simp at h

/-- A name that is bound to a type counts as an enum when the type does. -/
theorem isEnum_referent? {u u' : Ty} (hb : (b name).map Ty.isEnum = (b' name).map Ty.isEnum)
    (h : O.referent? b name = some (.type u)) (h' : O.referent? b' name = some (.type u')) :
    u.isEnum = u'.isEnum := by
  unfold referent? at h h'
  cases hn : b name with
  | none =>
    have hn' : b' name = none := by simpa [hn] using hb.symm
    rw [hn] at h
    rw [hn'] at h'
    cases h.symm.trans h'
    rfl
  | some v =>
    obtain ⟨v', hn', he⟩ := Option.map_eq_some_iff.mp (hn ▸ hb).symm
    rw [hn] at h
    rw [hn'] at h'
    cases h
    cases h'
    exact he.symm

/-- What the package says of a name counts where the name is not bound. -/
theorem referent?_defined {m : Meaning} (hb : (b name).map Ty.isEnum = (b' name).map Ty.isEnum)
    (h : O.referent? b name = some (.defined m)) : O.referent? b' name = some (.defined m) := by
  cases hn : b name with
  | none =>
    have hn' : b' name = none := by simpa [hn] using hb.symm
    unfold referent? at h ⊢
    rw [hn] at h
    rw [hn']
    exact h
  | some u =>
    rw [referent?_bound hn] at h
    cases h

end Names

theorem exists_mem_zip {ts : List α} {us : List β} (hlen : us.length = ts.length) {t : α}
    (ht : t ∈ ts) : ∃ u, (t, u) ∈ ts.zip us := by
  rw [← List.map_fst_zip (Nat.le_of_eq hlen.symm)] at ht
  obtain ⟨⟨t, u⟩, hmem, rfl⟩ := List.mem_map.mp ht
  exact ⟨u, hmem⟩

/-- What denotes void is written so or is a name that is bound to void. -/
theorem Denotes.writtenVoid {b : String → Option Ty} {t : TypeExpr} (h : O.Denotes b t .void) :
    O.WrittenVoid t ∨ ∃ name span, t = .named name [] span ∧ b name.name = some .void := by
  generalize hu : Ty.void = u at h
  induction h with
  | @known _ name span _ h =>
    subst hu
    rcases referent?_void h with hb | hname
    · exact .inr ⟨name, span, rfl, hb⟩
    · exact .inl (.void hname)
  | typeAlias h _ ih =>
    rcases ih hu with hw | ⟨_, _, _, hb⟩
    · exact .inl (.typeAlias (meaning_of_referent? h) hw)
    · cases hb
  | _ => cases hu

/-- Whether an enum is denoted depends on the bound names only as far as they
stand for enums. -/
theorem Denotes.isEnum_eq {b b' : String → Option Ty} {t : TypeExpr} {u u' : Ty}
    (h : O.Denotes b t u) (h' : O.Denotes b' t u')
    (hb : ∀ name, (b name).map Ty.isEnum = (b' name).map Ty.isEnum) : u.isEnum = u'.isEnum := by
  induction h generalizing b' u' with
  | @known _ name _ _ h =>
    cases h' with
    | known h' => exact isEnum_referent? (hb name.name) h h'
    | typeAlias h' | enum h' | trait h' | struct h' =>
      have hm := referent?_defined (hb name.name).symm h'
      rw [h] at hm
      cases hm
  | @typeAlias _ name _ _ _ h _ ih =>
    have hm := referent?_defined (hb name.name) h
    cases h' with
    | typeAlias h' ht' =>
      rw [hm] at h'
      cases h'
      exact ih ht' fun _ => rfl
    | known h' | enum h' | trait h' | struct h' =>
      rw [hm] at h'
      cases h'
  | @enum _ name _ _ h | @trait _ name _ _ h | @struct _ name _ _ _ _ h =>
    have hm := referent?_defined (hb name.name) h
    cases h' with
    | known h' | typeAlias h' | enum h' | trait h' | struct h' =>
      rw [hm] at h'
      cases h'
      try rfl
  | pointer _ _ _ ih =>
    cases h' with
    | pointer h' =>
      have he := ih h' hb
      exact he
  | reference _ _ ih =>
    cases h' with
    | reference h' =>
      have he := ih h' hb
      exact he
  | _ =>
    cases h'
    rfl

end Outline

end JaneCheck
