import JaneCheck.Proofs.Levels

/-!
# Resolution under other frames

A template is resolved in the frames of whoever uses it, with one frame more for
its own type parameters. `TypeExpr.lookups` are the names that this may look up.
Frames agree on names that are found to stand for the same types in both.
-/

namespace JaneCheck

open Syntax (Arg Expr TypeExpr)

/-! ## Names that are looked up -/

namespace Syntax

mutual

/-- The names that may be looked up for a type; `opened` are those of the
templates that sizes of arrays may open. -/
def TypeExpr.lookups (opened : List String) : TypeExpr → List String
  | .named name gs _ => name.name :: TypeExpr.lookupsAll opened gs
  | .pointer t _ | .reference t _ | .slice t _ | .array none t _ => t.lookups opened
  | .rawPointer _ => []
  | .array (some e) t _ => t.lookups opened ++ e.lookups opened
  | .map k v _ => k.lookups opened ++ v.lookups opened
  | .function ts _ none _ => TypeExpr.lookupsAll opened ts
  | .function ts _ (some t) _ => TypeExpr.lookupsAll opened ts ++ t.lookups opened
  | .tuple ts _ => TypeExpr.lookupsAll opened ts

def TypeExpr.lookupsAll (opened : List String) : List TypeExpr → List String
  | [] => []
  | t :: ts => t.lookups opened ++ TypeExpr.lookupsAll opened ts

/-- The names that may be looked up for a value. Members, calls, literals of
structs and instances open templates. -/
def Expr.lookups (opened : List String) : Expr → List String
  | .literal _ _ => []
  | .ident name => [name.name]
  | .generic name gs _ => name.name :: (opened ++ TypeExpr.lookupsAll opened gs)
  | .binary _ l r _ => l.lookups opened ++ r.lookups opened
  | .unary _ e _ | .spread e _ => e.lookups opened
  | .call f args _ => opened ++ f.lookups opened ++ Expr.lookupsArgs opened args
  | .field e _ _ => opened ++ e.lookups opened
  | .index e i _ => e.lookups opened ++ i.lookups opened
  | .structLit name gs args _ =>
    name.name :: (opened ++ TypeExpr.lookupsAll opened gs ++ Expr.lookupsArgs opened args)
  | .array es _ => Expr.lookupsAll opened es
  | .cast e t _ => e.lookups opened ++ t.lookups opened

def Expr.lookupsAll (opened : List String) : List Expr → List String
  | [] => []
  | e :: es => e.lookups opened ++ Expr.lookupsAll opened es

def Expr.lookupsArgs (opened : List String) : List Arg → List String
  | [] => []
  | ⟨_, e, _⟩ :: as => e.lookups opened ++ Expr.lookupsArgs opened as

end

section Members

variable {opened : List String} {name : String}

mutual

/-- What is looked up is written there or in a template that may be opened. -/
theorem TypeExpr.lookups_cases (t : TypeExpr) (h : name ∈ t.lookups opened) :
    name ∈ t.lookups [] ∨ name ∈ opened := by
  cases t with
  | named n gs _ =>
    have ihs := TypeExpr.lookupsAll_cases gs
    grind [TypeExpr.lookups]
  | pointer t _ | reference t _ | slice t _ =>
    have ih := TypeExpr.lookups_cases t
    grind [TypeExpr.lookups]
  | rawPointer => cases h
  | array n t _ =>
    have ih := TypeExpr.lookups_cases t
    cases n with
    | none => grind [TypeExpr.lookups]
    | some e =>
      have ihe := Expr.lookups_cases e
      grind [TypeExpr.lookups]
  | map k v _ =>
    have ihk := TypeExpr.lookups_cases k
    have ihv := TypeExpr.lookups_cases v
    grind [TypeExpr.lookups]
  | function ts _ r _ =>
    have ihs := TypeExpr.lookupsAll_cases ts
    cases r with
    | none => grind [TypeExpr.lookups]
    | some t =>
      have ih := TypeExpr.lookups_cases t
      grind [TypeExpr.lookups]
  | tuple ts _ =>
    have ihs := TypeExpr.lookupsAll_cases ts
    grind [TypeExpr.lookups]

theorem TypeExpr.lookupsAll_cases (ts : List TypeExpr) (h : name ∈ TypeExpr.lookupsAll opened ts) :
    name ∈ TypeExpr.lookupsAll [] ts ∨ name ∈ opened := by
  cases ts with
  | nil => cases h
  | cons t ts =>
    have ih := TypeExpr.lookups_cases t
    have ihs := TypeExpr.lookupsAll_cases ts
    grind [TypeExpr.lookupsAll]

theorem Expr.lookups_cases (e : Expr) (h : name ∈ e.lookups opened) :
    name ∈ e.lookups [] ∨ name ∈ opened := by
  cases e with
  | literal => cases h
  | ident => exact .inl h
  | generic n gs _ =>
    have ihs := TypeExpr.lookupsAll_cases gs
    grind [Expr.lookups]
  | binary _ l r _ | index l r _ =>
    have ihl := Expr.lookups_cases l
    have ihr := Expr.lookups_cases r
    grind [Expr.lookups]
  | unary _ e _ | spread e _ | field e _ _ =>
    have ih := Expr.lookups_cases e
    grind [Expr.lookups]
  | call f args _ =>
    have ih := Expr.lookups_cases f
    have ihs := Expr.lookupsArgs_cases args
    grind [Expr.lookups]
  | structLit n gs args _ =>
    have ihs := TypeExpr.lookupsAll_cases gs
    have ihargs := Expr.lookupsArgs_cases args
    grind [Expr.lookups]
  | array es _ =>
    have ihs := Expr.lookupsAll_cases es
    grind [Expr.lookups]
  | cast e t _ =>
    have ihe := Expr.lookups_cases e
    have iht := TypeExpr.lookups_cases t
    grind [Expr.lookups]

theorem Expr.lookupsAll_cases (es : List Expr) (h : name ∈ Expr.lookupsAll opened es) :
    name ∈ Expr.lookupsAll [] es ∨ name ∈ opened := by
  cases es with
  | nil => cases h
  | cons e es =>
    have ih := Expr.lookups_cases e
    have ihs := Expr.lookupsAll_cases es
    grind [Expr.lookupsAll]

theorem Expr.lookupsArgs_cases (as : List Arg) (h : name ∈ Expr.lookupsArgs opened as) :
    name ∈ Expr.lookupsArgs [] as ∨ name ∈ opened := by
  cases as with
  | nil => cases h
  | cons a as =>
    obtain ⟨_, e, _⟩ := a
    have ih := Expr.lookups_cases e
    have ihs := Expr.lookupsArgs_cases as
    grind [Expr.lookupsArgs]

end

end Members

end Syntax

/-! ## Names of parts -/

section Parts

open Syntax (Expr TypeExpr)
open Check (Part argParts calleeParts exprParts typeParts)

variable {opened : List String} {name : String}

theorem Syntax.TypeExpr.mem_lookupsAll {t : TypeExpr} {ts : List TypeExpr} (ht : t ∈ ts)
    (h : name ∈ t.lookups opened) : name ∈ TypeExpr.lookupsAll opened ts := by
  induction ts with
  | nil => cases ht
  | cons u ts ih => grind [TypeExpr.lookupsAll]

theorem Syntax.Expr.mem_lookupsAll {e : Expr} {es : List Expr} (he : e ∈ es)
    (h : name ∈ e.lookups opened) : name ∈ Expr.lookupsAll opened es := by
  induction es with
  | nil => cases he
  | cons u es ih => grind [Expr.lookupsAll]

/-- The names that may be looked up for a part. -/
def Check.Part.lookups (opened : List String) : Part → List String
  | .type t => t.lookups opened
  | .expr e => e.lookups opened
  | .name n => [n]
  | .templates => opened
  | .context => []

theorem lookups_spreadOperand (e : Expr) :
    (Check.spreadOperand e).lookups opened = e.lookups opened := by
  cases e <;> rfl

variable {x : Part}

theorem lookups_argParts {args : List Arg} (hx : x ∈ argParts args) (h : name ∈ x.lookups opened) :
    name ∈ Expr.lookupsArgs opened args := by
  induction args with
  | nil => cases hx
  | cons arg args ih =>
    obtain ⟨_, e, _⟩ := arg
    rcases List.mem_append.mp hx with hx | hx
    · have hsame : x.lookups opened = e.lookups opened := by
        grind [Part.lookups, lookups_spreadOperand]
      exact List.mem_append_left _ (hsame ▸ h)
    · exact List.mem_append_right _ (ih hx)

theorem lookups_calleeParts {e : Expr} (hx : x ∈ calleeParts e) (h : name ∈ x.lookups opened) :
    name ∈ e.lookups opened := by
  cases e <;> grind [calleeParts, Part.lookups, Expr.lookups]

theorem lookups_typeParts {t : TypeExpr} (hx : x ∈ typeParts t) (h : name ∈ x.lookups opened) :
    name ∈ t.lookups opened := by
  cases t with
  | array n _ _ => cases n <;> grind [typeParts, Part.lookups, TypeExpr.lookups]
  | function ts _ r _ =>
    cases r <;> grind [typeParts, Part.lookups, TypeExpr.lookups, → TypeExpr.mem_lookupsAll]
  | _ => grind [typeParts, Part.lookups, TypeExpr.lookups, → TypeExpr.mem_lookupsAll]

theorem lookups_exprParts {e : Expr} (hx : x ∈ exprParts e) (h : name ∈ x.lookups opened) :
    name ∈ e.lookups opened := by
  cases e <;> grind [exprParts, Part.lookups, Expr.lookups, → Expr.mem_lookupsAll,
    → TypeExpr.mem_lookupsAll, → lookups_argParts, → lookups_calleeParts]

theorem context_not_mem_typeParts (t : TypeExpr) : Part.context ∉ typeParts t := by
  cases t <;> simp [typeParts]

theorem context_not_mem_exprParts (e : Expr) : Part.context ∉ exprParts e := by
  have hcallee (f : Expr) : Part.context ∉ calleeParts f := by cases f <;> simp [calleeParts]
  cases e <;> simp [exprParts, argParts, hcallee]

end Parts

/-- The names that are written in the types of templates. -/
def Package.writtenNames (p : Package) : List String :=
  p.structs.toList.flatMap (fun info => TypeExpr.lookupsAll [] info.decl.types) ++
    p.funcs.toList.flatMap fun f => TypeExpr.lookupsAll [] f.decl.types

namespace Package

variable {p : Package} {name : String}

theorem mem_writtenNames_of_struct {id : StructId}
    (h : name ∈ TypeExpr.lookupsAll p.writtenNames (p.struct id).decl.types) :
    name ∈ p.writtenNames := by
  rcases TypeExpr.lookupsAll_cases _ h with h | h
  · by_cases hid : id < p.structs.size
    · have hentry : p.struct id ∈ p.structs.toList := by simp [Package.struct, hid]
      exact List.mem_append_left _ (List.mem_flatMap.mpr ⟨_, hentry, h⟩)
    · have hnone : p.struct id = default := by simp [Package.struct, hid]
      rw [hnone] at h
      cases h
  · exact h

theorem mem_writtenNames_of_func {id : FuncId}
    (h : name ∈ TypeExpr.lookupsAll p.writtenNames (p.func id).decl.types) :
    name ∈ p.writtenNames := by
  rcases TypeExpr.lookupsAll_cases _ h with h | h
  · by_cases hid : id < p.funcs.size
    · have hentry : p.func id ∈ p.funcs.toList := by simp [Package.func, hid]
      exact List.mem_append_right _ (List.mem_flatMap.mpr ⟨_, hentry, h⟩)
    · have hnone : p.func id = default := by simp [Package.func, hid]
      rw [hnone] at h
      cases h
  · exact h

end Package

/-! ## Frames that agree -/

namespace Bindings

/-- The names stand for the same types, or for none. -/
def AgreeOn (b b' : Bindings) (names : List String) : Prop :=
  ∀ name ∈ names, b'.lookup? name = b.lookup? name

variable {b b' : Bindings} {names : List String}

theorem lookup?_pushFrame (b : Bindings) (frame : List (String × Ty)) (name : String) :
    (b.pushFrame frame).lookup? name =
      ((frame.reverse.find? (·.1 == name)).map (·.2)).or (b.lookup? name) := by
  simp only [lookup?, pushFrame, List.flatten_cons, List.find?_append]
  cases frame.reverse.find? (·.1 == name) <;> rfl

theorem AgreeOn.pushFrame {frame : List (String × Ty)}
    (h : ∀ name ∈ names, name ∉ frame.map Prod.fst → b'.lookup? name = b.lookup? name) :
    (b.pushFrame frame).AgreeOn (b'.pushFrame frame) names := by
  intro name hname
  rw [lookup?_pushFrame, lookup?_pushFrame]
  by_cases hframe : name ∈ frame.map Prod.fst
  · obtain ⟨e, he, rfl⟩ := List.mem_map.mp hframe
    have hfound : (frame.reverse.find? (·.1 == e.1)).isSome = true :=
      List.find?_isSome.mpr ⟨e, by simpa using he, by simp⟩
    obtain ⟨found, hfound⟩ := Option.isSome_iff_exists.mp hfound
    rw [hfound]
    rfl
  · rw [h name hname hframe]

end Bindings

namespace Package

/-- The frame of a struct under type arguments. -/
def structFrame (p : Package) (id : StructId) (types : List Ty) : List (String × Ty) :=
  (p.struct id).generics.zip types

/-- The frame of a function under type arguments of its owner and its own. -/
def funcFrame (p : Package) (id : FuncId) (ownerTypes types : List Ty) : List (String × Ty) :=
  (p.ownerGenerics (p.func id)).zip ownerTypes ++ (p.func id).generics.zip types

/-- Under the two stacks of frames the template finds the same for all names
that its own frame does not bind. -/
def Clear (p : Package) (b b' : Bindings) (frame : List (String × Ty)) (ts : List TypeExpr) : Prop :=
  ∀ name ∈ TypeExpr.lookupsAll p.writtenNames ts, name ∉ frame.map Prod.fst →
    b'.lookup? name = b.lookup? name

end Package

end JaneCheck
