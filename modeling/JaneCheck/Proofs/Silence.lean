import JaneCheck.Proofs.Tables

/-!
# Void types of a check without errors

A type that could not be found stands in the tables as void. Where the report
of a check has no error, a void type is written as such, or there is something
that fails silently: an array size whose computation is lost (`Blame`), or in an
instance a rule on pointers and references that the template passed (`Clash`).
-/

namespace JaneCheck

open Check Package
open Syntax (TypeExpr)

/-! ## What the phases leave alone -/

namespace Package

/-- The tables agree on names and aliases. -/
structure SameAliases (p q : Package) : Prop where
  names : q.names = p.names
  aliases : q.aliases = p.aliases
  broken : q.brokenAliases = p.brokenAliases

/-- The tables agree on the declarations of structs and functions. -/
structure SameItems (p q : Package) : Prop where
  structs : q.structs = p.structs
  funcs : q.funcs = p.funcs

variable {setup : Setup} {p q : Package} {found : Findings}

theorem SameAliases.trans {r : Package} (h : SameAliases p q) (h' : SameAliases q r) :
    SameAliases p r :=
  ⟨h'.names.trans h.names, h'.aliases.trans h.aliases, h'.broken.trans h.broken⟩

theorem SameAliases.tried (h : SameAliases p q) (ht : Tried p) : Tried q := by
  intro name id hm
  have hlookup : p.lookup? name = q.lookup? name := by simp [lookup?, h.names]
  have hentry : q.typeAlias id = p.typeAlias id := by simp [typeAlias, h.aliases]
  rw [hentry, h.broken]
  exact ht (hlookup.trans hm)

theorem sameItems_resolveAliases (h : p.resolveAliases setup = some (q, found)) :
    SameItems p q := by
  obtain ⟨⟨types, f⟩, -, he⟩ := Option.bind_eq_some_iff.mp h
  cases he
  exact ⟨rfl, rfl⟩

theorem same_resolveEnums (h : p.resolveEnums setup = some (q, found)) :
    SameItems p q ∧ SameAliases p q := by
  obtain ⟨⟨items, f⟩, -, he⟩ := Option.bind_eq_some_iff.mp h
  cases he
  exact ⟨⟨rfl, rfl⟩, rfl, rfl, rfl⟩

theorem sameAliases_resolveTypes {files : Nat} (h : p.resolveTypes setup files = some (q, found)) :
    SameAliases p q := by
  obtain ⟨rs, -, he⟩ := Option.bind_eq_some_iff.mp h
  cases he
  exact List.foldlRecOn (motive := SameAliases p) rs _ ⟨rfl, rfl, rfl⟩
    fun q hq r _ => hq.trans ⟨rfl, rfl, rfl⟩

theorem same_computeGlobals (h : p.computeGlobals setup = some (q, found)) :
    SameItems p q ∧ SameAliases p q := by
  obtain ⟨⟨values, f⟩, -, he⟩ := Option.bind_eq_some_iff.mp h
  cases he
  exact ⟨⟨rfl, rfl⟩, rfl, rfl, rfl⟩

end Package

/-! ## Fields of instances -/

/-- The context in which the fields of an instance are resolved. -/
def Check.Context.ofInstance (generics : List String) (types : List Ty) : Context :=
  { bindings := Bindings.pushAll {} generics types }

/-- Type parameters are bound to the type arguments, none of which is an enum. -/
theorem Check.isEnum_bound_ofInstance {generics : List String} {types : List Ty}
    (hlen : types.length = generics.length) (henum : ∀ t ∈ types, t.isEnum = false)
    (name : String) :
    (Context.bound { templates := generics } name).map Ty.isEnum =
      ((Context.ofInstance generics types).bound name).map Ty.isEnum := by
  rw [Context.bound_templates]
  have hframe : (Context.ofInstance generics types).bound name =
      (((generics.zip types).reverse).find? (·.1 == name)).map (·.2) := by
    simp [Context.bound, Context.ofInstance, Bindings.lookup?, Bindings.pushAll,
      Bindings.pushFrame]
  rw [hframe]
  by_cases hname : name ∈ generics
  · obtain ⟨t, ht⟩ := Outline.exists_mem_zip hlen hname
    have hsome : ((generics.zip types).reverse.find? (·.1 == name)).isSome = true :=
      List.find?_isSome.mpr ⟨(name, t), List.mem_reverse.mpr ht, by simp⟩
    obtain ⟨e, he⟩ := Option.isSome_iff_exists.mp hsome
    have hmem : e ∈ generics.zip types := List.mem_reverse.mp (List.mem_of_find?_eq_some he)
    have hvalue : e.2.isEnum = false := henum e.2 (List.of_mem_zip hmem).2
    rw [if_pos (List.contains_iff_mem.mpr hname), he, Option.map_some, Option.map_some,
      Option.map_some, hvalue]
    rfl
  · have hnone : (generics.zip types).reverse.find? (·.1 == name) = none := by
      refine List.find?_eq_none.mpr fun e he heq => hname ?_
      rw [beq_iff_eq] at heq
      exact heq ▸ (List.of_mem_zip (List.mem_reverse.mp he)).1
    simp [hnone, hname]

/-- Why a field of an instance may be void although nothing is reported. `e` is the
table in which the types of the template were resolved and `p` the one in which
those of the instance are. -/
inductive VoidField (O : Outline) (P : Span → Prop) (e p : Package) (o : Options) (c : Context)
    (t : TypeExpr) : Prop
  | written (h : O.WrittenVoid t)
  | argument {name span} (he : t = .named name [] span) (hb : c.bound name.name = some .void)
  | template (h : Blame P e o t)
  | clash (h : O.Clash c.bound t)
  | undetermined (h : Undetermined p o c t)

namespace Check

variable {D : Demand} {e p : Package} {o : Options} {n : Nat} {c : Context} {s : State}

/-- A void type is written, or is a type argument, or is to blame. -/
theorem voidField_of_denotes {t : TypeExpr} (h : D.Denotes c.bound t .void) :
    VoidField D.toOutline D.span e p o c t := by
  rcases h.writtenVoid with hw | ⟨name, span, he, hb⟩
  · exact .written hw
  · exact .argument he hb

theorem leads_fieldType {types : List Ty} {d : Syntax.Field} {i : FieldInfo}
    {b : String → Option Ty} (hp : D.CoveredPackage p) (htried : Tried p) (hc : D.CoveredContext c)
    (hblock : c.block = none) (hb : ∀ name, (b name).map Ty.isEnum = (c.bound name).map Ty.isEnum)
    (hvoid : ∀ name, b name ≠ some .void) (hd : d.Within D.span)
    (hi : Entered D e o b d.type i.type) (hs : D.CoveredState s) :
    Leads (.grants D) (envAt p o n c) s (fieldType types d i) fun t _ =>
      t = .void → VoidField D.toOutline D.span e p o c d.type := by
  unfold fieldType
  split
  · refine .pure fun he => ?_
    rcases hi with hden | ⟨-, hblame⟩
    · rw [he] at hden
      rcases hden.writtenVoid with hw | ⟨name, span, -, hb'⟩
      · exact .written hw
      · exact absurd hb' (hvoid name.name)
    · exact .template hblame
  · intro t s' hrun hg hnone
    obtain ⟨s1, hquiet, rfl⟩ := run_quietly.mp hrun
    obtain ⟨a, s2, hresolve, hrest⟩ := run_bind.mp hquiet
    cases hrest
    cases a with
    | some u =>
      obtain ⟨-, hmeant⟩ :=
        (Demand.covered_levels o hp n hc).resolveIn hc hd.type hs hresolve hg
      have hu : u = .void := hnone
      exact voidField_of_denotes (hu ▸ hmeant.denotes hp.strict hblock u rfl)
    | none =>
      rcases hi with hden | ⟨-, hblame⟩
      · rcases hden.instantiate hb with hclash | ⟨u, hu⟩
        · exact .clash hclash
        · exact .undetermined
            ((determines_resolveAt hp htried hc hblock n hd.type hu hs hresolve hg).none rfl)
      · exact .template hblame

/-- Layouts have the fields in order, each with what is found for it. -/
theorem leads_checkFields {id : StructId} {types : List Ty} {fields : List Syntax.Field}
    {infos : List FieldInfo} {K : Syntax.Field → Ty → Prop} (hp : D.CoveredPackage p)
    (hc : D.CoveredContext c) (hfields : fields ⊆ (p.struct id).decl.fields) (hinfos : ∀ i ∈ infos, D.Covers i.type)
    (h : List.Forall₂ (fun d i => ∀ s, D.CoveredState s →
      Leads (.grants D) (envAt p o n c) s (fieldType types d i) fun t _ => K d t) fields infos)
    (hs : D.CoveredState s) :
    Leads (.grants D) (envAt p o n c) s (checkFields types fields infos) fun layout _ =>
      List.Forall₂ (fun d f => f.1 = d.name.name ∧ K d f.2) fields layout := by
  induction h generalizing s with
  | nil =>
    exact .pure .nil
  | @cons d i fields infos hd _ ih =>
    have hfield := hfields (List.mem_cons_self (a := d))
    have hwithin := (hp.structs id).decl d hfield
    refine .bind (M := fun t s' => (D.CoveredState s' ∧ D.Covers t) ∧ K d t)
      (fun t s' hrun hg => ⟨?_, hd s hs hrun hg⟩) fun t s1 _ ht => ?_
    · have hkeeps : (Demand.covering hp o).Keeps _ := keeps_fieldType types hfield (hinfos i (by simp))
      exact hkeeps n c s ⟨hc, hs⟩ hrun hg
    have hdefault : (Demand.covering hp o).Keeps (d.default.forM (checkDefault t)) :=
      .optionForM fun x hx => keeps_checkDefault ht.1.2 (hwithin.default x hx)
    refine .bind (hdefault n c s1 ⟨hc, ht.1.1⟩) fun _ s2 _ hs2 => ?_
    refine .bind (ih (List.subset_of_cons_subset hfields) (fun j hj => hinfos j (by simp [hj]))
      hs2.1) fun layout s3 _ hlayout => .pure (.cons ⟨rfl, ht.2⟩ hlayout)

/-- The layout of an instance, given what was entered for the template. -/
theorem leads_checkStruct {id : StructId} {types : List Ty} (hp : D.CoveredPackage p)
    (htried : Tried p) (htypes : ∀ t ∈ types, D.Covers t)
    (hlen : types.length = (p.struct id).generics.length)
    (henum : ∀ t ∈ types, t.isEnum = false)
    (hentered : EnteredStruct D e o (p.struct id) (p.struct id).fields) (hs : D.CoveredState s) :
    Leads (.grants D) (envAt p o n {}) s (checkStruct id types) fun layout _ =>
      List.Forall₂ (fun d f => f.1 = d.name.name ∧ (f.2 = .void →
        VoidField D.toOutline D.span e p o (.ofInstance (p.struct id).generics types) d.type))
        (p.struct id).decl.fields layout := by
  have hstruct := hp.structs id
  have hcontext : D.CoveredContext (.ofInstance (p.struct id).generics types) :=
    ⟨Demand.covered_pushFrame (by simp) (Demand.covered_zip htypes), Demand.covers_void⟩
  refine .package (.inContext ?_)
  refine leads_checkFields (n := n) (c := .ofInstance (p.struct id).generics types)
    (K := fun d t => t = .void → VoidField D.toOutline D.span e p o _ d.type) hp hcontext
    (List.Subset.refl _) hstruct.fields ?_ hs
  refine List.forall₂_iff_zip.mpr ⟨hentered.length_eq, fun {d i} hmem s hs => ?_⟩
  refine leads_fieldType hp htried hcontext rfl (isEnum_bound_ofInstance hlen henum)
    (fun name => ?_) (hstruct.decl d (List.of_mem_zip hmem).1) (List.forall₂_zip hentered hmem).2 hs
  rw [Context.bound_templates]
  split <;> simp

end Check

namespace Report

variable {setup : Package.Setup} {files : Nat} {c : Package.Collected} {p : Package}
  {out : Package.Instances}

/-- A type expression that may stand for void in the tables of a check without
errors: it is written so, or a size in it is lost. -/
def Stages.Void (S : Stages setup files c p out) (t : TypeExpr) : Prop :=
  c.package.outline.WrittenVoid t ∨ Blame (·.file < files) S.enumerated setup.options t

/-- Nothing is void in the last tables but what may be. -/
structure Stages.Silent (S : Stages setup files c p out) : Prop where
  aliases : p.brokenAliases ≠ [] → ∃ id < c.package.aliases.size,
    Blame (·.file < files) c.package setup.options (c.package.typeAlias id).decl.target
  fields : ∀ s ∈ p.structs, List.Forall₂
    (fun d f => f.name = d.name.name ∧ (f.type = .void → S.Void d.type)) s.decl.fields s.fields
  params : ∀ f ∈ p.funcs, List.Forall₂
    (fun d q => ∃ t, q.type = (if d.variadic then .slice t else t) ∧ (t = .void → S.Void d.type))
    f.decl.params f.sig.params
  results : ∀ f ∈ p.funcs, ∀ t ∈ f.decl.ret.type, f.sig.ret = .void → S.Void t
  instances : ∀ l ∈ out.layouts.toList, List.Forall₂
    (fun d f => f.1 = d.name.name ∧ (f.2 = .void →
      VoidField c.package.outline (·.file < files) S.enumerated p setup.options
        (.ofInstance (p.struct l.id).generics l.generics) d.type))
    (p.struct l.id).decl.fields l.fields

/-- Where type parameters have no values, only what is written so denotes void. -/
theorem void_of_entered {S : Stages setup files c p out} {names : List String} {t : TypeExpr}
    (h : Entered (Demand.ofStages S) S.enumerated setup.options
      (Context.bound { templates := names }) t .void) : S.Void t := by
  rcases h with hden | ⟨-, hblame⟩
  · rcases hden.writtenVoid with hw | ⟨name, span, -, hb⟩
    · exact .inl hw
    · rw [Context.bound_templates] at hb
      split at hb <;> cases hb
  · exact .inr hblame

theorem tried_enumerated (S : Stages setup files c p out)
    (hc : c.package.Declared (·.file < files) (· < files)) :
    (∀ id, ¬S.enumerated.Pending id) ∧ Tried S.enumerated ∧
    ∀ {name id}, S.enumerated.lookup? name = some (.typeAlias id) →
      id < S.enumerated.aliases.size := by
  obtain ⟨htried, hnames⟩ := tried_resolveAliases hc.lt_aliases S.resolveAliases
  obtain ⟨-, hsame⟩ := same_resolveEnums S.resolveEnums
  refine ⟨fun id hid => ?_, hsame.tried fun hm => htried _ (hnames hm), fun {name id} hm => ?_⟩
  · have hentry : S.enumerated.typeAlias id = S.aliased.typeAlias id := by
      simp [typeAlias, hsame.aliases]
    rcases htried id (hsame.aliases ▸ hid.known) with ⟨t, ht⟩ | hbroken
    · have hnone := hid.type
      rw [hentry, ht] at hnone
      cases hnone
    · exact hid.unbroken (hsame.broken ▸ hbroken)
  · have hlookup : S.aliased.lookup? name = S.enumerated.lookup? name := by
      simp [lookup?, hsame.names]
    rw [hsame.aliases]
    exact hnames (hlookup.trans hm)

section Tables

variable (S : Stages setup files c p out) (hc : c.Sound (·.file < files) (· < files))

include hc

theorem entered_typed
    (hclean : ∀ d ∈ out.findings.diags.toList, d.span.file < files → d.isError = false) :
    EnteredTable (Demand.ofStages S) S.enumerated setup.options S.typed := by
  have hcovered := Demand.covered_stages hc S
  obtain ⟨hnone, -, hnames⟩ := tried_enumerated S hc.table
  have haliased := sameItems_resolveAliases S.resolveAliases
  obtain ⟨hitems, -⟩ := same_resolveEnums S.resolveEnums
  have hgrants := hcovered.grants
  simp only [← S.found_eq, Demand.grants_append] at hgrants
  refine entered_resolveTypes hcovered.enumerated
    ⟨hnames, fun hid => (hnone _ hid).elim, fun hid => (hnone _ hid).elim⟩ hnone ?_ ?_
    S.resolveTypes (fun d hd => hclean d (S.diags_phase (by simp) hd)) hgrants.1.1.1.1.2
  · rw [hitems.structs, haliased.structs]
    exact hc.table.structFiles
  · rw [hitems.funcs, haliased.funcs]
    exact hc.table.funcFiles

theorem silent_instances (htable : EnteredTable (Demand.ofStages S) S.enumerated setup.options p)
    (htried : Tried p) {l : StructInstance} (hl : l ∈ out.layouts.toList) : List.Forall₂
    (fun d f => f.1 = d.name.name ∧ (f.2 = .void →
      VoidField c.package.outline (·.file < files) S.enumerated p setup.options
        (.ofInstance (p.struct l.id).generics l.generics) d.type))
    (p.struct l.id).decl.fields l.fields := by
  have hcovered := Demand.covered_stages hc S
  obtain hl | ⟨r, k, hevent, hcheck, htemplate, htypes, hlayout⟩ := S.drains.layouts hl
  · simp [Package.Instances.settled] at hl
  have hsound := hcovered.events _ hevent
  rw [htemplate, htypes] at hcheck
  obtain ⟨⟨layout, found⟩, hfind, he⟩ := Option.bind_eq_some_iff.mp hcheck
  cases he
  obtain ⟨s, hrun, rfl⟩ := run_of_find hfind
  have hentered : EnteredStruct (Demand.ofStages S) S.enumerated setup.options (p.struct l.id)
      (p.struct l.id).fields := Demand.forall_getD htable.structs .nil l.id
  have harity : l.generics.length = (p.struct l.id).generics.length := by
    rw [(hcovered.final.structs l.id).arity, ← htypes]
    exact hsound.arity trivial l.id htemplate
  have hlead := leads_checkStruct (n := setup.depth) hcovered.final htried
    (htypes ▸ hsound.types) harity (htypes ▸ hsound.noEnum trivial l.id htemplate) hentered
    Demand.coveredState_start
  have hinstance : Leads (.grants (Demand.ofStages S)) (envAt p setup.options setup.depth {}) {}
      (checkStructInstance l.id l.generics) _ :=
    .package (.bind hlead fun layout s1 _ h => .after fun _ _ _ => .pure h)
  have hgrants : ∀ q ∈ s.requests.toList, (Demand.ofStages S).request q := fun q hq =>
    List.mem_append_right _ (List.mem_flatMap.mpr ⟨_, hevent, hq⟩)
  rw [← hlayout]
  exact hinstance hrun hgrants

end Tables

/-- The tables of a check that reports no error. -/
theorem silent_stages (S : Stages setup files c p out)
    (hc : c.Sound (·.file < files) (· < files))
    (hclean : ∀ d ∈ out.findings.diags.toList, d.span.file < files → d.isError = false) :
    S.Silent := by
  obtain ⟨hitems, hglobals⟩ := same_computeGlobals S.computeGlobals
  have hsame := (sameAliases_resolveTypes S.resolveTypes).trans hglobals
  have hbroken : p.brokenAliases = S.aliased.brokenAliases :=
    hsame.broken.trans (same_resolveEnums S.resolveEnums).2.broken
  have htable : EnteredTable (Demand.ofStages S) S.enumerated setup.options p := by
    have hentered := entered_typed S hc hclean
    exact ⟨fun s hs => hentered.structs s (hitems.structs ▸ hs),
      fun f hf => hentered.funcs f (hitems.funcs ▸ hf)⟩
  have htried : Tried p := hsame.tried (tried_enumerated S hc.table).2.1
  refine ⟨fun hne => ?_, fun s hs => ?_, fun f hf => ?_, fun f hf t ht hvoid => ?_, fun l hl => ?_⟩
  · exact blame_of_broken (fun a ha => (hc.table.aliases a ha).2) hc.table.lt_aliases
      hc.table.unbroken
      S.resolveAliases (fun d hd => hclean d (S.diags_phase (by simp) hd))
      fun h => hne (hbroken.trans h)
  · refine (htable.structs s hs).imp fun d f h => ⟨h.1, fun hvoid => ?_⟩
    exact void_of_entered (hvoid ▸ h.2)
  · obtain ⟨names, hsig⟩ := htable.funcs f hf
    refine hsig.params.imp fun d q ⟨t, htype, h⟩ => ⟨t, htype, fun hvoid => ?_⟩
    exact void_of_entered (hvoid ▸ h)
  · obtain ⟨names, hsig⟩ := htable.funcs f hf
    exact void_of_entered (hvoid ▸ hsig.ret t ht)
  · exact silent_instances S hc htable htried hl

/-- A report without errors is made from findings without errors. -/
theorem MadeFrom.quiet {r : Report} {sources : List Source} {setup : Package.Setup} {p : Package}
    {order : List StructId} {out : Package.Instances} (h : r.MadeFrom sources setup p order out)
    (hclean : r.hasErrors = false) : ∀ d ∈ out.findings.diags.toList, d.isError = false := by
  intro d hd
  obtain ⟨hcheck, -, -, -, hdiags⟩ := h
  obtain ⟨S⟩ := exists_stages hcheck
  have hcovered := Demand.covered_requests (sound_parseAll sources) S
  obtain ⟨f, hf, hfdiags⟩ := hdiags _ (hcovered.instances.diags d hd)
  have hno := List.any_eq_false.mp hclean f hf
  simp only [FileReport.hasErrors, Bool.or_eq_true, not_or, Bool.not_eq_true,
    List.any_eq_false] at hno
  exact hno.2 d (hfdiags ▸ mem_diagsOf hd)

/-- A report without errors accounts for every void type of the tables: it is
written so, or a computed array size was lost, or in an instance the type
arguments break a rule on pointers and references. -/
theorem void_types_accounted {options : Options} {sources : List Source} {r : Report}
    (h : check options sources = some r) (hclean : r.hasErrors = false) :
    ∃ (p : Package) (order : List StructId) (out : Package.Instances),
      checkCollected (setupOf options sources) sources.length
        (Package.collect ((parseAll sources).map programOf)) = some (p, order, out) ∧
      r.instances = out.layouts.toList ∧
      ∃ S : Stages (setupOf options sources) sources.length
        (Package.collect ((parseAll sources).map programOf)) p out, S.Silent := by
  obtain ⟨p, order, out, hmade⟩ := exists_table_of_check h
  obtain ⟨S⟩ := exists_stages hmade.1
  exact ⟨p, order, out, hmade.1, hmade.2.2.1, S, silent_stages S (sound_parseAll _)
    fun d hd _ => hmade.quiet hclean d hd⟩

/-- A list whose nodes hold an array, through aliases. -/
def linkedNodes : Source where
  path := "main.jn"
  text := "type Id = int\ntype Pair = [2]Id\n" ++
    "struct Node[T] { next: *Node[T], value: T, ids: Pair }\n" ++
    "fn f(n: Node[str], ids: Pair) -> Id { return 1 }"

set_option maxRecDepth 100000 in
theorem void_types_accounted_linkedNodes :
    ∃ r, check {} [linkedNodes] = some r ∧ r.hasErrors = false ∧
      ∃ (p : Package) (order : List StructId) (out : Package.Instances),
        checkCollected (setupOf {} [linkedNodes]) 1
          (Package.collect ((parseAll [linkedNodes]).map programOf)) = some (p, order, out) ∧
        r.instances = out.layouts.toList ∧
        ∃ S : Stages (setupOf {} [linkedNodes]) 1
          (Package.collect ((parseAll [linkedNodes]).map programOf)) p out, S.Silent := by
  have heval : (check {} [linkedNodes]).any (!·.hasErrors) = true := by decide +kernel
  obtain ⟨r, hr, hclean⟩ := (Option.any_eq_true _ _).mp heval
  rw [Bool.not_eq_true'] at hclean
  exact ⟨r, hr, hclean, void_types_accounted hr hclean⟩

/-- The size of `A` is computed quietly, and with it the alias `B` is tried. -/
def quietAlias : Source where
  path := "main.jn"
  text := "type A = [M]int\nconst M: B = 3\ntype B = Unknown\n" ++
    "struct S[T] { x: B }\nfn f(y: S[int]) { }"

/-- The field is the name of an alias to a name that stands for nothing. -/
def namesUnknown (p : Package) (d : Syntax.Field) : Bool :=
  match d.type with
  | .named name _ _ =>
    match p.lookup? name.name with
    | some (.typeAlias id) =>
      match (p.typeAlias id).decl.target with
      | .named target _ _ =>
        name.name != "void" && target.name != "void" && (p.lookup? target.name).isNone
      | _ => false
    | _ => false
  | _ => false

theorem not_writtenVoid_of_namesUnknown {p : Package} {d : Syntax.Field}
    (h : namesUnknown p d = true) : ¬p.outline.WrittenVoid d.type := by
  unfold namesUnknown at h
  intro hw
  split at h
  next name gs span hd =>
    rw [hd] at hw
    split at h
    next id hm =>
      split at h
      next target ts place ht =>
        simp only [Bool.and_eq_true, bne_iff_ne, Option.isNone_iff_eq_none] at h
        cases hw with
        | void hname => exact h.1.1 hname
        | typeAlias hm' ht' =>
          cases hm.symm.trans hm'
          replace ht' : p.outline.WrittenVoid (p.typeAlias id).decl.target := ht'
          rw [ht] at ht'
          cases ht' with
          | void hname => exact h.1.2 hname
          | typeAlias hm'' _ => cases h.2.symm.trans hm''
      next => cases h
    next => cases h
  next => cases h

def isVoidType : Ty → Bool
  | .base .void => true
  | _ => false

set_option maxRecDepth 100000 in
theorem quietAlias_silent :
    ∃ r p order out, check {} [quietAlias] = some r ∧ r.hasErrors = false ∧
      checkCollected (setupOf {} [quietAlias]) 1
        (Package.collect ((parseAll [quietAlias]).map programOf)) = some (p, order, out) ∧
      p.brokenAliases ≠ [] ∧ ∃ l ∈ r.instances, ∃ e ∈ (p.struct l.id).decl.fields.zip l.fields,
        e.2.2 = .void ∧ ¬p.outline.WrittenVoid e.1.type := by
  have heval : (check {} [quietAlias]).any (!·.hasErrors) = true := by decide +kernel
  have htable : (checkCollected (setupOf {} [quietAlias]) 1
      (Package.collect ((parseAll [quietAlias]).map programOf))).any (fun r =>
        !r.1.brokenAliases.isEmpty && r.2.2.layouts.toList.any fun l =>
          ((r.1.struct l.id).decl.fields.zip l.fields).any fun e =>
            isVoidType e.2.2 && namesUnknown r.1 e.1) = true := by decide +kernel
  obtain ⟨r, hr, hclean⟩ := (Option.any_eq_true _ _).mp heval
  obtain ⟨p, order, out, hcheck, -, hinstances, -⟩ := exists_table_of_check hr
  rw [show checkCollected (setupOf {} [quietAlias]) 1 _ = _ from hcheck] at htable
  simp only [Option.any_some, Bool.and_eq_true, List.any_eq_true, Bool.not_eq_true',
    List.isEmpty_eq_false_iff] at htable
  obtain ⟨hbroken, l, hl, e, he, hvoid, hunknown⟩ := htable
  refine ⟨r, p, order, out, hr, by simpa using hclean, hcheck, hbroken, l, hinstances ▸ hl, e, he,
    ?_, not_writtenVoid_of_namesUnknown hunknown⟩
  unfold isVoidType at hvoid
  split at hvoid
  next heq => exact heq
  next => cases hvoid

end Report

end JaneCheck
