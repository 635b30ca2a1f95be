import JaneCheck.Proofs.TypeShapes
import JaneCheck.Proofs.Worklist

/-!
# Types that stand for themselves

A value of a type should be accepted where that type is required. The rules of
compatibility are tried in a fixed order, and three of them refuse it
(`Compat.check_self`): what takes `nil` and is neither a pointer, a slice nor a
map takes nothing else, so functions are refused; the trait rule looks through a
reference on one side only, so references to traits are; and memory of no type
is no number. All else stands for itself.

This holds of types whose parts are what they are named for (`Grounded`), and
resolution finds no others, if the names that it looks up stand for such types
(`GroundedNames`). Assignment compares tuples by their components, so that a
variable may be assigned to another one of the same type exactly if the types at
the leaves of the tuples stand for themselves.
-/

namespace JaneCheck

open Syntax (Ident TypeExpr)

/-! ## Grounded types -/

namespace Category

/-- The categories that are types by themselves: those that have a name, that of
`nil` and that of memory without a type. -/
def atoms : List Category := .nil :: .raw :: nameable

theorem accepts_self {ws : WordSize} {c : Category} (h : c ∈ atoms) (hvoid : c ≠ .void) :
    accepts ws false c c = true ↔ c ≠ .raw := by
  have hall : ∀ c ∈ atoms, c ≠ .void → (accepts ws false c c = true ↔ c ≠ .raw) := by
    cases ws <;> decide
  exact hall c h hvoid

end Category

namespace Ty

/-- What pointers and references lead to is built as its category says. -/
def Grounded (t : Ty) : Prop := ∀ c, t.core = .base c → c ∈ Category.atoms

theorem grounded_base {c : Category} (h : c ∈ Category.atoms) : (Ty.base c).Grounded := by
  intro c' hc
  cases hc
  exact h

theorem grounded_pointer {t : Ty} : (Ty.pointer t).Grounded ↔ t.Grounded := .rfl

theorem grounded_reference {t : Ty} : (Ty.reference t).Grounded ↔ t.Grounded := .rfl

theorem Grounded.trait? {t : Ty} (h : t.Grounded) (ht : t.isTrait = true) :
    ∃ id, t.trait? = some id := by
  cases t with
  | pointer u => exact (grounded_pointer.mp h).trait? ht
  | reference u => exact (grounded_reference.mp h).trait? ht
  | trait id name => exact ⟨id, rfl⟩
  | base c =>
    obtain rfl : c = .trait := eq_of_beq ht
    exact absurd (h _ rfl) (by decide)
  | _ => cases ht

end Ty

namespace Compat

variable {k : Compat} {t : Ty}

/-! ## Rule by rule -/

/-- A reference to a trait is not accepted as itself: on the right it is looked
through. -/
theorem traits_self {id : TraitId} (ht : t.isTrait = true) (hid : t.trait? = some id) :
    k.traits t t = .ofBool (!t.isReference) := by
  have hcat : t.category = .trait := eq_of_beq ht
  have helem : (if t.isReference then t.elem else t).category = .trait := by
    cases t <;> exact hcat
  cases href : t.isReference with
  | true =>
    rw [href] at helem
    simp [traits, Ty.isNil, Ty.isStruct, hcat, hid, href, show t.elem.category = _ from helem,
      Compatibility.ofBool]
  | false => simp [traits, Ty.isNil, Ty.isStruct, Ty.isTrait, hcat, hid, href]

theorem plain_base {c : Category} (h : c ∈ Category.atoms) :
    k.plain (.base c) (.base c) = Category.accepts k.wordSize k.ignoreAny c c := by
  cases c <;> first | rfl | exact absurd h (by decide)

theorem plain_pointer_self (u : Ty) : k.plain (.pointer u) (.pointer u) = true := by
  show pointers (.pointer u) (.pointer u) = true
  cases hraw : (Ty.pointer u).isRawPointer <;> simp [pointers, hraw, Ty.isPointer]

/-- The rule for a shape accepts the shape, but for the rule on `nil`. -/
theorem plain_self (hany : k.ignoreAny = false) (ht : t.Grounded) (htrait : t.isTrait = false)
    (href : t.isReference = false) (hvoid : t ≠ .void) (hgeneric : ∀ name, t ≠ .generic name) :
    k.plain t t = true ↔ t.isFunction = false ∧ t ≠ .base .raw := by
  cases t with
  | base c =>
    have hc : c ∈ Category.atoms := ht c rfl
    have hfn : (Ty.base c).isFunction = false := by
      cases c <;> first | rfl | exact absurd hc (by decide)
    rw [plain_base hc, hany, Category.accepts_self hc fun h => hvoid (congrArg Ty.base h), hfn]
    simp
  | generic name => exact absurd rfl (hgeneric name)
  | pointer u => simp [plain_pointer_self, Ty.isFunction]
  | reference u => cases href
  | slice u =>
    show ((Ty.slice u).isNil || (Ty.slice u).kind == (Ty.slice u).kind) = true ↔ _
    simp [Ty.isFunction]
  | array u n =>
    show ((n.isNone || n == n) && u == u) = true ↔ _
    simp [Ty.isFunction]
  | map x y =>
    show ((Ty.map x y).isNil || (Ty.map x y).kind == (Ty.map x y).kind) = true ↔ _
    simp [Ty.isFunction]
  | tuple ts =>
    show (Ty.tuple ts == Ty.tuple ts) = true ↔ _
    simp [Ty.isFunction]
  | function sig =>
    show (Ty.function sig).isNil = true ↔ _
    simp [Ty.isNil, Ty.category, Ty.isFunction]
  | struct id name gs =>
    show (id == id && ([] : List Modifier) == [] && gs == gs) = true ↔ _
    simp [Ty.isFunction]
  | trait id name => cases htrait
  | enum id name =>
    show (Ty.enum id name == Ty.enum id name) = true ↔ _
    simp [Ty.isFunction]

theorem check_of_plain {r : Ty} (ht : t.isTrait = false) (hr : r.isTrait = false)
    (htref : t.isReference = false) (hrref : r.isReference = false) :
    k.check t r = .ofBool (k.plain t r) := by
  unfold check
  cases t <;> simp_all [Ty.isReference]

theorem check_reference_self {u : Ty} (h : (Ty.reference u).isTrait = false) :
    k.check (.reference u) (.reference u) = .compatible := by
  unfold check
  simp [h]

theorem check_tuple_self (h : t.isTuple = true) : k.check t t = .compatible := by
  have hcat : t.category = .tuple := eq_of_beq h
  have htrait : t.isTrait = false := by simp [Ty.isTrait, hcat]
  cases href : t.isReference with
  | true =>
    cases t with
    | reference u => exact check_reference_self htrait
    | _ => cases href
  | false =>
    have hplain : k.plain t t = true := by
      cases t with
      | pointer u => exact plain_pointer_self u
      | base c =>
        obtain rfl : c = .tuple := hcat
        show (Ty.base .tuple == Ty.base .tuple) = true
        simp
      | tuple ts =>
        show (Ty.tuple ts == Ty.tuple ts) = true
        simp
      | reference => cases href
      | _ => cases hcat
    rw [check_of_plain htrait htrait href href, hplain]
    rfl

/-- Functions, references to traits and memory of no type are the types that do
not stand for themselves. -/
theorem check_self (hany : k.ignoreAny = false) (ht : t.Grounded) (hvoid : t ≠ .void)
    (hgeneric : ∀ name, t ≠ .generic name) :
    k.check t t = .compatible ↔
      t.isFunction = false ∧ ¬(t.isReference = true ∧ t.isTrait = true) ∧ t ≠ .base .raw := by
  have hofBool : ∀ b, Compatibility.ofBool b = .compatible ↔ b = true := by decide
  cases htrait : t.isTrait with
  | true =>
    obtain ⟨id, hid⟩ := ht.trait? htrait
    have hrule : k.check t t = k.traits t t := by
      unfold check
      simp [htrait]
    have hfn : t.isFunction = false := by
      cases t with
      | base c => cases c <;> first | rfl | cases htrait
      | function => cases htrait
      | _ => rfl
    have hraw : t ≠ .base .raw := by
      rintro rfl
      cases htrait
    rw [hrule, traits_self htrait hid, hofBool, hfn]
    simp [hraw]
  | false =>
    cases href : t.isReference with
    | true =>
      cases t with
      | reference u => simp [check_reference_self htrait, Ty.isFunction]
      | _ => cases href
    | false =>
      rw [check_of_plain htrait htrait href href, hofBool,
        plain_self hany ht htrait href hvoid hgeneric]
      simp

end Compat

/-! ## Assignment -/

namespace Ty

mutual

/-- The leaves of `t`, of which the second type is what is left after its pointers
and references. -/
def leavesFrom (t : Ty) : Ty → List Ty
  | .pointer u | .reference u => leavesFrom t u
  | .tuple ts => leavesAll ts
  | _ => [t]

def leavesAll : List Ty → List Ty
  | [] => []
  | t :: ts => leavesFrom t t ++ leavesAll ts

end

/-- The type itself or, of a tuple, the leaves of its components. -/
def leaves (t : Ty) : List Ty := leavesFrom t t

end Ty

namespace Assign

variable {k : Assign} {t : Ty}

/-- The rules of compatibility that assignment goes by. -/
abbrev compat (k : Assign) : Compat := ⟨k.defs, k.wordSize, k.ignoreAny, k.allowAssign⟩

theorem compatProblems_eq_nil {given : Ty} :
    k.compatProblems t given = [] ↔ k.compat.check t given = .compatible := by
  unfold compatProblems
  cases k.compat.check t given <;> simp

theorem verdict_tuple {ts : List Ty} {parts : List Problem} (hcore : t.core = .tuple ts) :
    k.verdict t t ts.length parts = parts := by
  have hcat : t.category = .tuple := by rw [← Ty.category_core, hcore, Ty.category]
  have hany : t.isAny = false := by
    cases t with
    | base c => cases hcore
    | _ => rfl
  have hparts : t.components = ts := by simp [Ty.components, hcore]
  simp [verdict, Ty.isVoid, Ty.isTuple, hcat, hany, hparts]

theorem verdict_leaf (hignore : k.ignoreAny = false) (hcore : ∀ ts, t.core ≠ .tuple ts) :
    k.verdict t t 0 [] = [] ↔ t.isVoid = false ∧ k.compat.check t t = .compatible := by
  cases hvoid : t.isVoid with
  | true => simp [verdict, hvoid]
  | false =>
    cases hany : t.isAny with
    | true =>
      obtain rfl : t = .base .any := by
        unfold Ty.isAny at hany
        split at hany
        · rfl
        · cases hany
      have hself : k.compat.check (.base .any) (.base .any) = .compatible :=
        (Compat.check_self hignore (Ty.grounded_base (by decide)) (by simp) (by simp)).mpr
          ⟨rfl, by decide, by simp⟩
      simp [verdict, hvoid, hignore, hany, hself]
    | false =>
      cases htuple : t.isTuple with
      | true =>
        -- A category alone: there are no components to compare.
        have hcat : t.core.category = .tuple := (Ty.category_core t).trans (eq_of_beq htuple)
        have hcomponents : t.components = [] := by
          unfold Ty.components
          split
          next hmap =>
            rw [hmap] at hcat
            cases hcat
          next ts hts => exact absurd hts (hcore ts)
          next => rfl
        simp [verdict, hvoid, hany, htuple, hcomponents, Compat.check_tuple_self htuple]
      | false => simp [verdict, hvoid, hany, htuple, compatProblems_eq_nil]

mutual

/-- A type has the problems with itself that its leaves have. -/
theorem coreProblems_self (hignore : k.ignoreAny = false) (u t : Ty) (hu : t.core = u.core) :
    k.coreProblems t u t = [] ↔
      ∀ v ∈ Ty.leavesFrom t u, v.isVoid = false ∧ k.compat.check v v = .compatible := by
  cases u with
  | pointer u | reference u => exact coreProblems_self hignore u t hu
  | tuple ts =>
    show k.verdict t t ts.length (k.componentProblems ts t.components) = [] ↔ _
    have hparts : t.components = ts := by simp [Ty.components, hu, Ty.core]
    rw [verdict_tuple hu, hparts]
    exact componentProblems_self hignore ts
  | _ =>
    show k.verdict t t 0 [] = [] ↔ _
    rw [verdict_leaf hignore (by simp [hu, Ty.core])]
    simp [Ty.leavesFrom]

theorem componentProblems_self (hignore : k.ignoreAny = false) (ts : List Ty) :
    k.componentProblems ts ts = [] ↔
      ∀ v ∈ Ty.leavesAll ts, v.isVoid = false ∧ k.compat.check v v = .compatible := by
  cases ts with
  | nil => simp [componentProblems, Ty.leavesAll]
  | cons t ts =>
    rw [componentProblems, List.append_eq_nil_iff, coreProblems_self hignore t t rfl,
      componentProblems_self hignore ts, Ty.leavesAll]
    simp only [List.mem_append]
    constructor
    · rintro ⟨hfirst, hrest⟩ v (hv | hv)
      · exact hfirst v hv
      · exact hrest v hv
    · exact fun h => ⟨fun v hv => h v (.inl hv), fun v hv => h v (.inr hv)⟩

end

theorem check_place (mutable : Bool) : k.check t (.place t mutable) = k.typeProblems t t := by
  have hstorable : notStorable? (.place t mutable) = none := by
    simp [notStorable?, Value.place]
  unfold check
  rw [hstorable]
  rfl

end Assign

/-! ## What resolution finds -/

theorem Ty.forms_grounded : Ty.Forms Ty.Grounded where
  primitive h := grounded_base (by simp [Category.atoms, List.mem_of_find?_eq_some h])
  builtin h := by
    unfold builtinType? at h
    repeat' split at h
    all_goals cases h
    all_goals exact grounded_base (by decide)
  void := grounded_base (by decide)
  rawPointer := grounded_pointer.mpr (grounded_base (by decide))
  pointer h _ _ := h
  reference h _ := h
  compound hnone hbase _ c hc := absurd (core_of_leadingModifiers hnone ▸ hc) (hbase c)

namespace Check

variable {p : Package} {o : Options} {c : Context} {s : State} {n : Nat}

/-- The names of types stand for grounded types: those of type parameters with a
type argument, of the aliases in blocks and of the aliases of the package. -/
structure GroundedNames (p : Package) (c : Context) (s : State) : Prop where
  bound : ∀ name t, c.bindings.lookup? name = some t → t.Grounded
  inBlock : ∀ block ∈ s.scopes.blocks, ∀ a ∈ block.aliases, a.type.Grounded
  typed : ∀ id t, (p.typeAlias id).type = some t → t.Grounded
  answered : ∀ id t, s.aliasCache.lookup id = some (some t) → t.Grounded

theorem resolvesGrounded (n : Nat) (c : Context) (e : TypeExpr) (hs : GroundedNames p c s) :
    Leads .any (envAt p o n c) s (resolve e) fun a _ => ∀ t ∈ a, t.Grounded :=
  ((finds_below Ty.forms_grounded n).finds c e ⟨{ hs with }, hs.bound⟩).mono
    fun _ _ h => h.1

/-- A type that resolution finds, neither void nor a type parameter, stands for
itself unless it is a function, a reference to a trait or memory of no type. A
variable of the type may be assigned to another one exactly if every leaf of the
type stands for itself and none is void. -/
theorem resolved_compat_self {e : TypeExpr} {T : Ty} {s' : State} (hs : GroundedNames p c s)
    (hrun : Check.run p o n c (resolve e) s = some (some T, s')) (hvoid : T ≠ .void)
    (hgeneric : ∀ name, T ≠ .generic name) (k : Assign) (hany : k.ignoreAny = false) :
    (k.compat.check T T = .compatible ↔
      T.isFunction = false ∧ ¬(T.isReference = true ∧ T.isTrait = true) ∧ T ≠ .base .raw) ∧
    ∀ mutable, k.check T (.place T mutable) = [] ↔
      ∀ u ∈ T.leaves, u.isVoid = false ∧ k.compat.check u u = .compatible := by
  have hT : T.Grounded := resolvesGrounded n c e hs hrun trivial T rfl
  refine ⟨Compat.check_self hany hT hvoid hgeneric, fun mutable => ?_⟩
  rw [Assign.check_place]
  exact Assign.coreProblems_self hany T T rfl

/-- A package with a trait `Shape`. -/
def shapes : Package where
  traits := #[{ name := "Shape", file := 0, decl := ⟨⟨"Shape", ⟨6, 11, 0⟩⟩, [], ⟨0, 14, 0⟩⟩ }]
  names := [("Shape", .trait 0)]

theorem groundedNames_shapes : GroundedNames shapes {} {} where
  bound _ _ h := by cases h
  inBlock := by simp
  typed _ _ h := by cases h
  answered _ _ h := by cases h

/-- `(&[]int, *unsafe, Shape)` -/
def shapeTuple : TypeExpr :=
  .tuple
    [.reference (.slice (.named ⟨"int", ⟨24, 27, 0⟩⟩ [] ⟨24, 27, 0⟩) ⟨22, 27, 0⟩) ⟨21, 27, 0⟩,
      .rawPointer ⟨29, 36, 0⟩, .named ⟨"Shape", ⟨38, 43, 0⟩⟩ [] ⟨38, 43, 0⟩] ⟨20, 44, 0⟩

/-- Assignment in this package. -/
def shapeAssign : Assign := { defs := shapes.definitions, wordSize := .w32, allowAssign := false }

theorem resolved_compat_self_shapeTuple :
    GroundedNames shapes {} {} ∧
    ∃ T s', Check.run shapes {} 4 {} (resolve shapeTuple) {} = some (some T, s') ∧
      shapeAssign.compat.check T T = .compatible ∧ shapeAssign.check T (.place T true) = [] := by
  have hrun : Check.run shapes {} 4 {} (resolve shapeTuple) {} = some (some
      (.tuple [.reference (.slice (.base .int)), .rawPointer, .trait 0 "Shape"]), {}) := rfl
  obtain ⟨hcompat, hassign⟩ := resolved_compat_self groundedNames_shapes hrun (by simp) (by simp)
    shapeAssign rfl
  refine ⟨groundedNames_shapes, _, _, hrun, hcompat.mpr ⟨rfl, by decide, by simp⟩,
    (hassign true).mpr ?_⟩
  simp only [Ty.leaves, Ty.leavesFrom, Ty.leavesAll, List.mem_append, List.mem_singleton,
    List.not_mem_nil, or_false, forall_eq_or_imp, forall_eq]
  exact ⟨⟨rfl, by decide +kernel⟩, ⟨rfl, by decide +kernel⟩, rfl, by decide +kernel⟩

/-- `fn(int) -> int` -/
def handler : TypeExpr :=
  .function [.named ⟨"int", ⟨23, 26, 0⟩⟩ [] ⟨23, 26, 0⟩] false
    (some (.named ⟨"int", ⟨31, 34, 0⟩⟩ [] ⟨31, 34, 0⟩)) ⟨20, 34, 0⟩

/-- `&Shape` -/
def shapeReference : TypeExpr :=
  .reference (.named ⟨"Shape", ⟨21, 26, 0⟩⟩ [] ⟨21, 26, 0⟩) ⟨20, 26, 0⟩

theorem handler_refused :
    (∃ T s', Check.run shapes {} 2 {} (resolve handler) {} = some (some T, s') ∧
      T.kind = "fn(int) -> int" ∧ shapeAssign.compat.check T T = .incompatible ∧
      shapeAssign.check T (.place T true) = [.incompatible "fn(int) -> int" "fn(int) -> int"]) ∧
    ∃ T s', Check.run shapes {} 2 {} (resolve shapeReference) {} = some (some T, s') ∧
      T.kind = "&Shape" ∧ shapeAssign.compat.check T T = .incompatible ∧
      shapeAssign.check T (.place T true) = [.incompatible "&Shape" "&Shape"] :=
  ⟨⟨_, _, rfl, rfl, rfl, rfl⟩, _, _, rfl, rfl, rfl, rfl⟩

end Check

end JaneCheck
