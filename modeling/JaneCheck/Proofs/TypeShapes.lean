import JaneCheck.Proofs.Demand
import JaneCheck.Proofs.Parts
import JaneCheck.Proofs.Traces

/-!
# Shapes of resolved types

Resolution makes types by a few rules. If the names of types stand for types with
a property that the rules keep (`Ty.Forms`), then all that resolution finds has
it, and the names still stand for such types afterwards (`finds_below`).

The property of `resolve_wellShaped` is about pointers and references, which reach
a type from its text, through aliases and from bound type parameters: everywhere
in a type there is no modifier, a run of pointers or a single reference.
-/

namespace JaneCheck

open Syntax (Ident TypeExpr)

/-! ## Rules -/

/-- The rules that make types keep `P`. -/
structure Ty.Forms (P : Ty → Prop) : Prop where
  primitive : ∀ {name c}, Category.ofName? name = some c → P (.base c)
  builtin : ∀ {name t}, builtinType? name = some t → P t
  void : P .void
  rawPointer : P .rawPointer
  pointer : ∀ {t}, P t → t.isReference = false → t.isRawPointer = false → P (.pointer t)
  reference : ∀ {t}, P t → t.validForReference = true → P (.reference t)
  /-- All other types are made of their parts. -/
  compound : ∀ {t}, t.leadingModifiers = [] → (∀ c, t ≠ .base c) → (∀ u ∈ t.parts, P u) → P t

theorem Ty.Forms.assemble {P : Ty → Prop} (hP : Ty.Forms P) {t : TypeExpr} {us : List Ty}
    (h : ∀ u ∈ us, P u) (hadmits : t.admits us = true) (n : Option UInt64) :
    P (t.assemble us n) := by
  refine TypeExpr.assemble_forms (P := P)
    (fun hu => hP.compound rfl nofun (by simpa using hu)) h hadmits n
    hP.void hP.rawPointer hP.pointer hP.reference ?_ ?_ ?_ (hP.compound rfl nofun h)
  · exact fun hu => hP.compound rfl nofun (by simpa using hu)
  · exact fun hk hv => hP.compound rfl nofun (by simpa using ⟨hk, hv⟩)
  · intro params ret hparams hret
    refine hP.compound rfl nofun fun w hw => ?_
    rcases List.mem_append.mp hw with hw | hw
    · obtain ⟨q, hq, rfl⟩ := List.mem_map.mp hw
      exact hparams q hq
    · exact List.mem_singleton.mp hw ▸ hret

theorem Scopes.mem_of_lookupAlias {s : Scopes} {b b' : BlockId} {name : String} {a : LocalAlias}
    (h : s.lookupAlias? b name = some (b', a)) : ∃ block ∈ s.blocks, a ∈ block.aliases := by
  obtain ⟨owner, -, hlocal⟩ := List.exists_of_findSome?_eq_some h
  obtain ⟨a, hlocal, ⟨⟩⟩ := Option.map_eq_some_iff.mp hlocal
  obtain ⟨block, hblock, hfind⟩ := Option.bind_eq_some_iff.mp hlocal
  exact ⟨block, Array.mem_of_getElem? hblock, List.mem_of_find?_eq_some hfind⟩

namespace Check

/-- The aliases in blocks and those of the package stand for types with `P`. -/
structure AliasesHave (P : Ty → Prop) (p : Package) (s : State) : Prop where
  inBlock : ∀ block ∈ s.scopes.blocks, ∀ a ∈ block.aliases, P a.type
  typed : ∀ id t, (p.typeAlias id).type = some t → P t
  answered : ∀ id t, s.aliasCache.lookup id = some (some t) → P t

/-- And so do the type parameters that are bound. -/
structure NamesHave (P : Ty → Prop) (p : Package) (c : Context) (s : State) : Prop
    extends AliasesHave P p s where
  bound : ∀ name t, c.bindings.lookup? name = some t → P t

/-- From names that stand for types with `P` the check answers with `R`. -/
def FindsTypes (P : Ty → Prop) (p : Package) (o : Options) (n : Nat) (c : Context) (x : Check α)
    (R : α → Prop) : Prop :=
  ∀ ⦃s⦄, NamesHave P p c s → Leads .any (envAt p o n c) s x fun a s' => R a ∧ AliasesHave P p s'

/-- What is known of the levels below. -/
structure FindsBelow (P : Ty → Prop) (p : Package) (o : Options) (n : Nat) : Prop where
  keeps : Level p o n fun _ s s' => AliasesHave P p s → AliasesHave P p s'
  finds : ∀ c t, FindsTypes P p o n c (resolve t) fun a => ∀ u ∈ a, P u

variable {P : Ty → Prop} {p : Package} {o : Options} {n : Nat} {c : Context} {s s' : State}

/-! ## States -/

theorem AliasesHave.of_bare (h : AliasesHave P p s) (hscopes : s'.scopes.bare = s.scopes.bare)
    (hcache : s'.aliasCache = s.aliasCache) : AliasesHave P p s' where
  inBlock := by
    have hbare (s : Scopes) : (∀ block ∈ s.bare.blocks, ∀ a ∈ block.aliases, P a.type) ↔
        ∀ block ∈ s.blocks, ∀ a ∈ block.aliases, P a.type := by
      simp [Scopes.bare, Scopes.Block.bare, LocalAlias.bare]
    rw [← hbare, hscopes, hbare]
    exact h.inBlock
  typed := h.typed
  answered := hcache ▸ h.answered

theorem AliasesHave.of_view (h : AliasesHave P p s) (hview : s'.view = s.view) :
    AliasesHave P p s' :=
  have hfields := State.view_eq_iff.mp hview
  h.of_bare hfields.1 hfields.2.2.2.1

theorem NamesHave.openAlias (h : AliasesHave P p s) (id : AliasId) :
    NamesHave P p (c.openAlias id) s where
  toAliasesHave := h
  bound _ _ hbound := by cases hbound

/-- Only aliases that are resolved are remembered, so all that is run keeps what
they stand for. -/
theorem Ran.aliasesHave (hn : FindsBelow P p o n) (h : Ran p o n c s s') (hs : AliasesHave P p s) :
    AliasesHave P p s' := by
  induction h with
  | refl => exact hs
  | trans _ _ _ _ ih ih' => exact ih' (ih hs)
  | output _ _ hview _ => exact hs.of_view hview
  | voidRead _ => exact hs.of_view rfl
  | @useVar c s id => exact hs.of_bare (s.scopes.bare_modifyVar id) rfl
  | @mark c s b name => exact hs.of_bare (s.scopes.bare_mark b name) rfl
  | @typeAlias c s a s' id _ h =>
    cases h with
    | typed _ | broken _ _ | cyclic _ _ | answered _ _ _ _ => exact hs
    | cycle _ _ => exact { hs with }
    | @opened r s1 _ _ hrun =>
      obtain ⟨hr, hs1⟩ := hn.finds (c.openAlias id) (p.typeAlias id).decl.target (.openAlias hs id) hrun
        trivial
      refine ⟨hs1.inBlock, hs1.typed, fun id' t ht => ?_⟩
      rw [State.remember, List.lookup_cons] at ht
      split at ht
      · unfold State.answer at ht
        split at ht
        · cases ht
        · exact hr t (Option.some.inj ht)
      · exact hs1.answered id' t ht
  | @global c s v s' id _ h _ ih =>
    cases h with
    | valued _ | cyclic _ _ | answered _ _ _ => exact hs
    | cycle _ _ => exact { hs with }
    | @computed v s1 _ hpath hrun =>
      have hs1 := ih v s1 hrun hpath hs
      show AliasesHave P p ((s1.heard s c.reportGlobals).rememberGlobal id v)
      cases c.reportGlobals <;> exact { hs1 with }
  | template _ _ ih =>
    have hs' := ih hs
    exact { hs' with }
  | resolve h => exact hn.keeps.resolve h hs
  | eval h => exact hn.keeps.eval h hs

/-! ## What is found -/

section Rules

variable {R : α → Prop}

theorem FindsTypes.pure {a : α} (h : R a) : FindsTypes P p o n c (pure a) R :=
  fun _ hs => .pure ⟨h, hs.toAliasesHave⟩

theorem FindsTypes.bind {x : Check β} {f : β → Check α} {M : β → Prop} (hx : FindsTypes P p o n c x M)
    (hf : ∀ b, M b → FindsTypes P p o n c (f b) R) : FindsTypes P p o n c (x >>= f) R :=
  fun _ hs => .bind (hx hs) fun b _ _ hb => hf b hb.1 ⟨hb.2, hs.bound⟩

theorem FindsTypes.package {f : Package → Check α} (hf : FindsTypes P p o n c (f p) R) :
    FindsTypes P p o n c (package >>= f) R := hf

theorem FindsTypes.context {f : Context → Check α} (hf : FindsTypes P p o n c (f c) R) :
    FindsTypes P p o n c (context >>= f) R := hf

theorem FindsTypes.after {x : Check β} {f : β → Check α} {M : β → Prop} (hn : FindsBelow P p o n)
    (hx : AsksFor (.any p) c x M) (hf : ∀ b, FindsTypes P p o n c (f b) R) : FindsTypes P p o n c (x >>= f) R :=
  .bind (M := fun _ => True) (fun _ hs _ _ hrun _ => ⟨trivial, (hx.ran hrun).aliasesHave hn hs.toAliasesHave⟩)
    fun b _ => hf b

theorem finds_refuse (q : Problem) (span : Span) :
    FindsTypes P p o n c (refuse q span) fun a : Option α => ∀ t ∈ a, R t :=
  fun _ hs => .bind (M := fun _ s' => AliasesHave P p s') (leads_update { hs with })
    fun _ _ _ hs' => .pure ⟨nofun, hs'⟩

theorem finds_plain {t : Ty} (gs : List TypeExpr) (span : Span) (h : P t) :
    FindsTypes P p o n c (plain t gs span) fun a => ∀ u ∈ a, P u := by
  unfold plain
  split
  · exact .pure (by simpa using h)
  · exact finds_refuse _ _

end Rules

section Steps

variable (hP : Ty.Forms P) (hn : FindsBelow P p o n)

include hn

theorem finds_resolveAll (ts : List TypeExpr) :
    FindsTypes P p o n c (resolveAll ts) fun a => ∀ us ∈ a, ∀ u ∈ us, P u := by
  induction ts with
  | nil => exact .pure (by simp)
  | cons t ts ih =>
    refine .bind (hn.finds c t) fun first hfirst => .bind ih fun rest hrest => .pure ?_
    intro us hus
    obtain ⟨u, vs, hu, hvs, rfl⟩ := exists_of_both hus
    simpa using ⟨hfirst u hu, hrest vs hvs⟩

theorem finds_resolveArgs (gs : List TypeExpr) :
    FindsTypes P p o n c (resolveArgs gs) fun a => ∀ us ∈ a, ∀ u ∈ us, P u := by
  refine .bind (finds_resolveAll hn gs) fun a ha => ?_
  split
  · exact .pure (by simp)
  · split
    · exact finds_refuse _ _
    · exact .pure ha

theorem finds_useLocalAlias (name : String) :
    FindsTypes P p o n c (useLocalAlias name) fun a => ∀ u ∈ a, P u := by
  intro s hs a s' hrun _
  have hasks : AsksFor (.any p) c (useLocalAlias name) _ := .useLocalAlias trivial
  refine ⟨fun u hu => ?_, (hasks.ran hrun).aliasesHave hn hs.toAliasesHave⟩
  obtain ⟨rfl, -⟩ := (gives_useLocalAlias name).of_run hrun
  obtain ⟨_, hfound, rfl⟩ := Option.map_eq_some_iff.mp hu
  obtain ⟨_, hbare, rfl⟩ := Option.map_eq_some_iff.mp hfound
  obtain ⟨b, -, hbare⟩ := Option.bind_eq_some_iff.mp hbare
  rw [Scopes.lookupAlias?_bare] at hbare
  obtain ⟨⟨_, a⟩, hlookup, rfl⟩ := Option.map_eq_some_iff.mp hbare
  obtain ⟨block, hblock, ha⟩ := Scopes.mem_of_lookupAlias hlookup
  exact hs.inBlock block hblock a ha

theorem finds_aliasType {id : AliasId} (hid : p.HasAlias id) :
    FindsTypes P p o n c (aliasType id) fun a => ∀ u ∈ a, P u := by
  intro s hs a s' hrun _
  have hasks : AsksFor (.any p) c (aliasType id) _ := .aliasType hid fun _ => trivial
  have hs' := (hasks.ran hrun).aliasesHave hn hs.toAliasesHave
  refine ⟨fun t ht => ?_, hs'⟩
  cases aliasRun_of_run hrun with
  | typed h =>
    cases ht
    exact hs.typed id t h
  | answered _ _ _ h => exact hs.answered id t (h.trans (congrArg some ht))
  | opened _ _ _ => exact hs'.answered id t (by rw [State.remember, List.lookup_cons_self, ht])
  | _ => cases ht

include hP

theorem finds_resolveStruct (id : StructId) (gs : List TypeExpr) (span : Span) :
    FindsTypes P p o n c (resolveStruct id gs span) fun a => ∀ u ∈ a, P u := by
  refine .package ?_
  dsimp only
  split
  · exact finds_refuse _ _
  · refine .bind (finds_resolveArgs hn gs) fun a ha => ?_
    split
    · exact .pure (by simp)
    next types =>
      have hstruct : ∀ u ∈ some (Ty.struct id (p.struct id).name types), P u := by
        rintro _ ⟨⟩
        exact hP.compound rfl nofun (ha types rfl)
      split
      · exact .after hn (asks_request (Demand.sound_lax _)) fun _ => .pure hstruct
      · exact .pure hstruct

theorem finds_resolveDefined (name : Ident) (gs : List TypeExpr) (span : Span) :
    FindsTypes P p o n c (resolveDefined name gs span) fun a => ∀ u ∈ a, P u := by
  refine .package ?_
  split
  next id hid =>
    refine .bind (finds_aliasType hn (.inr ⟨_, hid⟩)) fun a ha => ?_
    split
    · exact .pure (by simp)
    · split
      · exact .pure ha
      · exact finds_refuse _ _
  · split
    · exact .pure (by rintro _ ⟨⟩; exact hP.compound rfl nofun nofun)
    · exact finds_refuse _ _
  · exact finds_plain _ _ (hP.compound rfl nofun nofun)
  · exact finds_resolveStruct hP hn _ _ _
  · exact finds_refuse _ _
  · exact finds_refuse _ _
  · exact finds_refuse _ _

theorem finds_resolveNamed (name : Ident) (gs : List TypeExpr) (span : Span) :
    FindsTypes P p o n c (resolveNamed name gs span) fun a => ∀ u ∈ a, P u := by
  refine .context ?_
  dsimp only
  split
  next t ht => exact fun s hs => finds_plain gs span (hs.bound _ t ht) hs
  split
  · exact finds_plain _ _ (hP.compound rfl nofun nofun)
  split
  next hprimitive => exact finds_plain _ _ (hP.primitive hprimitive)
  refine .bind (finds_useLocalAlias hn _) fun a ha => ?_
  split
  · exact finds_plain _ _ (ha _ rfl)
  split
  next hbuiltin => exact finds_plain _ _ (hP.builtin hbuiltin)
  · exact finds_resolveDefined hP hn _ _ _

theorem finds_resolveStep (t : TypeExpr) :
    FindsTypes P p o n c (resolveStep t) fun a => ∀ u ∈ a, P u := by
  rcases t.named_or_compound with ⟨name, gs, span, rfl⟩ | hcompound
  · exact finds_resolveNamed hP hn name gs span
  simp only [FindsTypes, Leads, resolveStep_compound hcompound]
  refine FindsTypes.bind (finds_resolveAll hn t.parts) fun a ha => ?_
  cases a with
  | none => exact .pure nofun
  | some us =>
    rw [finish]
    split
    next hadmits =>
      have hbuilt (k : Option UInt64) : P (t.assemble us k) := hP.assemble (ha us rfl) hadmits k
      split
      · exact .pure (by rintro _ ⟨⟩; exact hbuilt none)
      · refine .after hn (asks_arraySize trivial) fun k => .pure fun u hu => ?_
        obtain ⟨k, -, rfl⟩ := Option.map_eq_some_iff.mp hu
        exact hbuilt (some k)
    · exact finds_refuse _ _

end Steps

theorem finds_below (hP : Ty.Forms P) (n : Nat) : FindsBelow P p o n := by
  induction n with
  | zero =>
    refine ⟨⟨fun c t s a s' h => ?_, fun c e hint s a s' h => ?_⟩, fun c t s _ a s' h => ?_⟩
    · simp [resolveAt, Step.tooDeep] at h
    · simp [evalAt, Step.tooDeep] at h
    · cases h
  | succ n ih =>
    refine ⟨⟨fun c t s a s' h => ?_, fun c e hint s a s' h => ?_⟩, fun c t s hs => ?_⟩
    · exact ((asks_resolveStep_lax allows_any fun _ _ => trivial).ran h).aliasesHave ih
    · exact ((asks_evalStep_lax allows_any fun _ _ => trivial).ran h).aliasesHave ih
    · exact finds_resolveStep hP ih t hs

end Check

/-! ## Modifiers -/

namespace Ty

/-- The modifiers in front of the type stand as they may: there is none, or a run
of pointers that does not lead to memory of no type, or one reference, which leads
to neither a pointer, a reference, an array nor an enum. -/
def stacked (t : Ty) : Bool :=
  t.modifiers.isEmpty || t.modifiers.all (· == .pointer) && t.category != .raw ||
    t.isReference && !(t.elem.isPointer || t.elem.isReference || t.elem.isArray || t.elem.isEnum)

/-- The modifiers stand as they may in front of the type and of all that it is
made of: elements, components, type arguments, parameters and results. -/
inductive WellShaped : Ty → Prop
  | intro {t : Ty} (h : t.stacked = true) (hparts : ∀ u ∈ t.core.parts, WellShaped u) : WellShaped t

theorem wellShaped_base (c : Category) : (Ty.base c).WellShaped := .intro rfl nofun

theorem stacked_pointer {t : Ty} (h : t.stacked = true) (href : t.isReference = false)
    (hraw : t.isRawPointer = false) : (Ty.pointer t).stacked = true := by
  have hmodifiers : t.modifiers = t.leadingModifiers := by simp [modifiers, hraw]
  by_cases hcategory : t.category = .raw
  · have hnone : t.leadingModifiers = [] := by simpa [stacked, href, hcategory, hmodifiers] using h
    have hbase : t = .base .raw := by
      cases t <;> simp_all [leadingModifiers, category]
    rw [hbase]
    rfl
  · have hpointer : (Ty.pointer t).modifiers = .pointer :: t.leadingModifiers :=
      modifiers_of_category hcategory
    have hall : t.leadingModifiers.all (· == .pointer) = true := by
      simp only [stacked, href, hmodifiers] at h
      grind
    simp [stacked, hpointer, hall, category, hcategory]

theorem forms_wellShaped : Forms WellShaped where
  primitive _ := wellShaped_base _
  builtin h := by
    unfold builtinType? at h
    repeat' split at h
    all_goals cases h
    all_goals exact wellShaped_base _
  void := wellShaped_base _
  rawPointer := .intro rfl nofun
  pointer h href hraw := by
    cases h with
    | intro h hparts => exact .intro (stacked_pointer h href hraw) hparts
  reference h hvalid := by
    cases h with
    | intro h hparts =>
      refine .intro ?_ hparts
      simp_all [stacked, isReference, elem, validForReference]
  compound hnone _ hparts := by
    refine .intro (by simp [stacked, modifiers, hnone]) ?_
    rw [core_of_leadingModifiers hnone]
    exact hparts

end Ty

namespace Check

/-- If the type parameters that are bound, the aliases in blocks and those of the
package stand for well shaped types, then a type that resolution finds is well
shaped, and they still stand for such types afterwards. -/
theorem resolve_wellShaped (p : Package) (o : Options) (depth : Nat) (c : Context) (s : State)
    (e : TypeExpr) {found : Option Ty} {s' : State} (hs : NamesHave Ty.WellShaped p c s)
    (hrun : run p o depth c (resolve e) s = some (found, s')) :
    (∀ T ∈ found, T.WellShaped) ∧ NamesHave Ty.WellShaped p c s' := by
  obtain ⟨hfound, hs'⟩ := (finds_below Ty.forms_wellShaped depth).finds c e hs hrun trivial
  exact ⟨hfound, hs', hs.bound⟩

/-- A package with an alias `A`. -/
def aliasA : Package where
  aliases := #[{ name := "A", file := 0, decl := ⟨⟨"A", ⟨5, 6, 0⟩⟩, .rawPointer ⟨9, 16, 0⟩, ⟨0, 16, 0⟩⟩ }]
  names := [("A", .typeAlias 0)]

/-- `(A, *T)` -/
def tupleA : TypeExpr :=
  .tuple [.named ⟨"A", ⟨21, 22, 0⟩⟩ [] ⟨21, 22, 0⟩,
    .pointer (.named ⟨"T", ⟨25, 26, 0⟩⟩ [] ⟨25, 26, 0⟩) ⟨24, 26, 0⟩] ⟨20, 27, 0⟩

/-- With `&[]int` for the alias and `*int` for the type parameter. -/
theorem resolve_wellShaped_tupleA :
    let c : Context := { bindings := ⟨[[("T", .pointer (.base .int))]]⟩ }
    let s : State := { aliasCache := [(0, some (.reference (.slice (.base .int))))] }
    NamesHave Ty.WellShaped aliasA c s ∧ ∃ T s', run aliasA {} 3 c (resolve tupleA) s = some (some T, s') ∧
      T.kind = "(&[]int, **int)" ∧ T.WellShaped := by
  intro c s
  have hint := Ty.wellShaped_base .int
  have hpointer : (Ty.pointer (.base .int)).WellShaped := Ty.forms_wellShaped.pointer hint rfl rfl
  have hslice : (Ty.slice (.base .int)).WellShaped :=
    Ty.forms_wellShaped.compound rfl nofun (by simpa using hint)
  have hs : NamesHave Ty.WellShaped aliasA c s :=
    { inBlock := by simp [s]
      typed := fun id t h => by
        cases id with
        | zero => cases h
        | succ id => simp [aliasA, Package.typeAlias] at h
      answered := fun id t h => by
        simp only [s, List.lookup_cons, List.lookup_nil] at h
        split at h
        · cases h
          exact Ty.forms_wellShaped.reference hslice rfl
        · cases h
      bound := fun name t h => by
        obtain ⟨⟨_, u⟩, hmem, rfl⟩ := Option.map_eq_some_iff.mp h
        obtain ⟨-, rfl⟩ : _ ∧ u = _ := by simpa [c] using List.mem_of_find?_eq_some hmem
        exact hpointer }
  have hrun : run aliasA {} 3 c (resolve tupleA) s =
      some (some (.tuple [.reference (.slice (.base .int)), .pointer (.pointer (.base .int))]), s) := rfl
  exact ⟨hs, _, _, hrun, rfl, (resolve_wellShaped aliasA {} 3 c s tupleA hs hrun).1 _ rfl⟩

end Check

end JaneCheck
