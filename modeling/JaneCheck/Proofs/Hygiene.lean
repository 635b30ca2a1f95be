import JaneCheck.Proofs.Frames
import JaneCheck.Proofs.Levels.Eval
import JaneCheck.Report

/-!
# Hygiene of templates

A check that asks only for names on which two contexts agree does the same in
both (`AsksFor.coincide`), so no level depends on other names (`hygienic_envAt`). It is
`Steady` under other frames when it has the same answer and the same effect on
every state there. Hence the signature of a function and the fields of a struct
under type arguments are the same for every caller that leaves the names of the
template alone (`instantiation_hygienic`). A caller whose own type parameter has
the name of a type that the template mentions captures it
(`callerParameter_captures`).
-/

namespace JaneCheck.Check

open Syntax (Expr TypeExpr)

/-! ## Contexts that agree -/

/-- The contexts agree on what the names stand for, from related states. -/
structure Coincide (V : State → State → Prop) (N : String → Prop) (c c' : Context) : Prop where
  aliasPath : c'.aliasPath = c.aliasPath
  globalPath : c'.globalPath = c.globalPath
  reportGlobals : c'.reportGlobals = c.reportGlobals
  func : c'.func.isUnsafe = c.func.isUnsafe
  inUnsafe : ∀ {s t}, V s t → c'.unsafeIn t.scopes.bare = c.unsafeIn s.scopes.bare
  agree : ∀ {s t name}, N name → V s t → Agree c c' s.scopes.bare t.scopes.bare name

/-- The name is among those given, except for an alias or a global, which has no
frames. -/
def Seen (c : Context) (names : List String) (c' : Context) (name : String) : Prop :=
  c'.aliasPath = c.aliasPath → c'.globalPath = c.globalPath → name ∈ names

/-- The names that may be looked up are seen. -/
def Looks (p : Package) (c : Context) (names : List String) (c' : Context) (x : Part) : Prop :=
  x ≠ .context ∧ ∀ name ∈ x.lookups p.writtenNames, Seen c names c' name

/-- The answers from below are the same in contexts that agree. -/
structure Env.Hygienic (env : Env) : Prop where
  resolveIn : ∀ {V c c' t}, Viewing V → Coincide V (· ∈ t.lookups env.package.writtenNames) c c' →
    (env.resolveIn c t).Mirrors V (env.resolveIn c' t)
  evalIn : ∀ {V c c' e hint}, Viewing V → Coincide V (· ∈ e.lookups env.package.writtenNames) c c' →
    (env.evalIn c e hint).Mirrors V (env.evalIn c' e hint)

section Coincide

variable {V : State → State → Prop} {N : String → Prop} {p : Package} {o : Options} {n : Nat}
  {c c' : Context} {names : List String}

theorem Coincide.mono {N' : String → Prop} (h : Coincide V N c c') (hN : ∀ name, N' name → N name) :
    Coincide V N' c c' :=
  { h with agree := fun hname => h.agree (hN _ hname) }

theorem transfers_looks (hV : Viewing V) :
    Transfers (Looks p c names) V fun d d' => Coincide V (Seen c names d) d d' where
  toViewing := hV
  aliasPath h := h.aliasPath
  globalPath h := h.globalPath
  reportGlobals h := h.reportGlobals
  openAlias h id :=
    { h with
      aliasPath := congrArg (id :: ·) h.aliasPath
      inUnsafe := fun _ => congrArg (· || false) h.func
      agree := fun _ _ => ⟨rfl, rfl, rfl, rfl⟩ }
  openGlobal h id :=
    { h with
      globalPath := congrArg (id :: ·) h.globalPath
      func := rfl
      inUnsafe := fun _ => rfl
      agree := fun _ _ => ⟨rfl, rfl, rfl, rfl⟩ }
  openTemplate h frame :=
    { h with
      inUnsafe := fun _ => congrArg (· || false) h.func
      agree := fun hname hst => ⟨by
        show (Bindings.pushFrame _ frame).lookup? _ = (Bindings.pushFrame _ frame).lookup? _
        rw [Bindings.lookup?_pushFrame, Bindings.lookup?_pushFrame, (h.agree hname hst).bound],
        rfl, rfl, rfl⟩ }
  whole _ hno := absurd rfl hno.1
  inUnsafe h := h.inUnsafe
  agree h hname := h.agree (hname.2 _ List.mem_cons_self)

theorem allows_looks : Allows (.lax p (Looks p c names)) c where
  target _ _ := ⟨nofun, fun _ _ hpath => absurd hpath (List.cons_ne_self _ _)⟩
  globalType _ _ _ _ := ⟨nofun, fun _ _ _ hpath => absurd hpath (List.cons_ne_self _ _)⟩
  globalValue _ _ := ⟨nofun, fun _ _ _ hpath => absurd hpath (List.cons_ne_self _ _)⟩
  template hopen frame t ht := by
    refine ⟨nofun, fun name hname _ _ => hopen.2 name ?_ rfl rfl⟩
    cases ht with
    | func id h => exact Package.mem_writtenNames_of_func (TypeExpr.mem_lookupsAll h hname)
    | struct id h => exact Package.mem_writtenNames_of_struct (TypeExpr.mem_lookupsAll h hname)

/-- A check does the same in contexts that agree on the names that it looks up. -/
theorem AsksFor.coincide {d d' : Context} {x : Check α} {R : α → Prop}
    (hx : AsksFor (.lax p (Looks p c names)) d x R)
    (hV : Viewing V) (hyg : (envAt p o n c).Hygienic) (hd : Coincide V (Seen c names d) d d') :
    (x (envAt p o n d)).Mirrors V (x (envAt p o n d')) :=
  hx.mirrors (transfers_looks hV) (fun hc ht => hyg.resolveIn hV (hc.mono ht.2))
    (fun hc he => hyg.evalIn hV (hc.mono he.2)) hd

/-- No level depends on what is not looked up. -/
theorem hygienic_envAt (p : Package) (o : Options) (n : Nat) (c : Context) :
    (envAt p o n c).Hygienic := by
  induction n generalizing c with
  | zero =>
    refine ⟨fun _ _ s a s' h => ?_, fun _ _ s a s' h => ?_⟩
    · simp [envAt, resolveAt, Step.tooDeep] at h
    · simp [envAt, evalAt, Step.tooDeep] at h
  | succ n ih =>
    refine ⟨fun {V c c' t} hV h => ?_, fun {V c c' e hint} hV h => ?_⟩
    · have hlooks : Allows (.lax p (Looks p c (t.lookups p.writtenNames))) c := allows_looks
      have hasks := asks_resolveStep_lax hlooks fun x hx =>
          ⟨fun hno => context_not_mem_typeParts t (hno ▸ hx), fun _ h _ _ => lookups_typeParts hx h⟩
      exact hasks.coincide hV (ih c) (h.mono fun _ hname => hname rfl rfl)
    · have hasks : Asks (.lax p (Looks p c (e.lookups p.writtenNames))) c (evalStep e hint) :=
        asks_evalStep_lax allows_looks fun x hx =>
          ⟨fun hno => context_not_mem_exprParts e (hno ▸ hx), fun _ h _ _ => lookups_exprParts hx h⟩
      exact hasks.coincide hV (ih c) (h.mono fun _ hname => hname rfl rfl)

end Coincide

/-! ## Other frames -/

/-- The environment with other frames. -/
def Env.rebind (env : Env) (b : Bindings) : Env :=
  { env with context := { env.context with bindings := b } }

/-- The check does the same under other frames. -/
def Steady (env : Env) (b : Bindings) (x : Check α) : Prop := x (env.rebind b) = x env

section Steady

variable {p : Package} {o : Options} {n : Nat} {c : Context} {names : List String}

theorem coincide_rebind {b : Bindings} (h : c.bindings.AgreeOn b names) :
    Coincide Eq (· ∈ names) c { c with bindings := b } where
  aliasPath := rfl
  globalPath := rfl
  reportGlobals := rfl
  func := rfl
  inUnsafe hst := hst ▸ rfl
  agree hname hst := hst ▸ ⟨h _ hname, rfl, rfl, rfl⟩

/-- A check in a template is steady under frames that agree on the names that it
looks up. -/
theorem steady_inTemplate {frame : List (String × Ty)} {x : Check α}
    {R : α → Prop} (hx : ∀ d, AsksFor (.lax p (Looks p c names)) d x R) (hyg : (envAt p o n c).Hygienic) {b : Bindings}
    (hb : (c.bindings.pushFrame frame).AgreeOn (b.pushFrame frame) names) :
    Steady (envAt p o n c) b (inTemplate frame x) := by
  have hcoincide : Coincide Eq (· ∈ names) (c.openTemplate frame)
      ({ c with bindings := b }.openTemplate frame) :=
    coincide_rebind (c := c.openTemplate frame) hb
  have hforth := (hx _).coincide viewing_eq hyg (hcoincide.mono fun _ h => h rfl rfl)
  have hback := (hx _).coincide viewing_eq hyg ((coincide_rebind (c := { c with bindings := b }.openTemplate frame)
    (b := c.bindings.pushFrame frame) fun name hname => (hb name hname).symm).mono fun _ h => h rfl rfl)
  exact (Step.Mirrors.quietly viewing_eq hback).below.antisymm (Step.Mirrors.quietly viewing_eq hforth).below

/-! ## Templates -/

variable {b : Bindings} (hyg : (envAt p o n c).Hygienic)

include hyg

theorem steady_structFields_of_clear {id : StructId} {types : List Ty}
    (h : p.Clear c.bindings b (p.structFrame id types) (p.struct id).decl.types) :
    Steady (envAt p o n c) b (structFields id types) := by
  show (if types.isEmpty then _ else _ : Check _) ((envAt p o n c).rebind b) =
    (if types.isEmpty then _ else _ : Check _) (envAt p o n c)
  split
  · rfl
  · exact steady_inTemplate (fun d => asks_fieldTypes fun f hf => ⟨nofun, fun _ h _ _ =>
      TypeExpr.mem_lookupsAll (List.mem_map_of_mem hf) h⟩) hyg (.pushFrame h)

theorem steady_instantiateSig_of_clear {id : FuncId} {ownerTypes types : List Ty}
    (h : p.Clear c.bindings b (p.funcFrame id ownerTypes types) (p.func id).decl.types) :
    Steady (envAt p o n c) b (instantiateSig id ownerTypes types) := by
  show (if ownerTypes.isEmpty && types.isEmpty then _ else _ : Check _) ((envAt p o n c).rebind b) =
    (if ownerTypes.isEmpty && types.isEmpty then _ else _ : Check _) (envAt p o n c)
  split
  · rfl
  · refine steady_inTemplate (fun d => asks_resolveSignature _ _ (fun q hq => ⟨nofun, fun _ h _ _ => ?_⟩)
      fun t ht => ⟨nofun, fun _ h _ _ => ?_⟩) hyg (.pushFrame h)
    · exact TypeExpr.mem_lookupsAll (List.mem_append_left _ (List.mem_map_of_mem hq)) h
    · exact TypeExpr.mem_lookupsAll (List.mem_append_right _ (Option.mem_toList.mpr ht)) h

end Steady

/-- The block and the type parameters of the caller are not seen in a template. -/
theorem instantiateSig_relocate (env : Env) (block : Option BlockId) (templates : List String)
    (id : FuncId) (ownerTypes types : List Ty) :
    instantiateSig id ownerTypes types
        { env with context := { env.context with block, templates } } =
      instantiateSig id ownerTypes types env := by
  show (if ownerTypes.isEmpty && types.isEmpty then _ else _ : Check _) _ =
    (if ownerTypes.isEmpty && types.isEmpty then _ else _ : Check _) env
  split <;> rfl

theorem structFields_relocate (env : Env) (block : Option BlockId) (templates : List String)
    (id : StructId) (types : List Ty) :
    structFields id types { env with context := { env.context with block, templates } } =
      structFields id types env := by
  show (if types.isEmpty then _ else _ : Check _) _ = (if types.isEmpty then _ else _ : Check _) env
  split <;> rfl

/-- Two callers that differ only in their frames, block and type parameters get
the same signature and the same fields, if a name that the template may look up
outside of its own frame stands for the same type in the frames of both. -/
theorem instantiation_hygienic (p : Package) (o : Options) (depth : Nat) (c : Context) (b : Bindings)
    (block : Option BlockId) (templates : List String) (s : State) :
    let c' : Context := { c with bindings := b, block, templates }
    (∀ id ownerTypes types,
      p.Clear c.bindings b (p.funcFrame id ownerTypes types) (p.func id).decl.types →
      run p o depth c' (instantiateSig id ownerTypes types) s =
        run p o depth c (instantiateSig id ownerTypes types) s) ∧
    ∀ id types,
      p.Clear c.bindings b (p.structFrame id types) (p.struct id).decl.types →
      run p o depth c' (structFields id types) s = run p o depth c (structFields id types) s := by
  have hyg := hygienic_envAt p o depth c
  refine ⟨fun id ownerTypes types h => ?_, fun id types h => ?_⟩
  · have hsteady := steady_instantiateSig_of_clear hyg h
    have hmoved := instantiateSig_relocate ((envAt p o depth c).rebind b) block templates id
      ownerTypes types
    exact congrArg (Step.run · s) (hmoved.trans hsteady)
  · have hsteady := steady_structFields_of_clear hyg h
    have hmoved := structFields_relocate ((envAt p o depth c).rebind b) block templates id types
    exact congrArg (Step.run · s) (hmoved.trans hsteady)

/-! ## Two callers -/

/-- A generic struct and a generic function that mention the type `T`, and a
caller whose type parameter has that name. -/
def mentioning : Source :=
  ⟨"main.jn", "struct T { }\nstruct S[U] { p: *T, q: U }\nfn g[U](u: U, t: T) { }\n" ++
    "fn f[T](x: T) { g::[int](1, 2) }\nfn h() { f::[int](3) }"⟩

/-- Its declarations. -/
def mentioningPackage : Package :=
  (Package.collect ((Report.parseAll [mentioning]).map Report.programOf)).package

/-- The frame of a caller with type parameters `V` and `U`. -/
def strangers : Bindings := ⟨[[("V", .base .int), ("U", .base .str)]]⟩

set_option maxRecDepth 100000 in
theorem mentioning_lookups :
    TypeExpr.lookupsAll mentioningPackage.writtenNames (mentioningPackage.func 0).decl.types =
        ["U", "T"] ∧
      (mentioningPackage.funcFrame 0 [] [.base .int]).map Prod.fst = ["U"] ∧
      TypeExpr.lookupsAll mentioningPackage.writtenNames (mentioningPackage.struct 1).decl.types =
        ["T", "U"] ∧
      (mentioningPackage.structFrame 1 [.base .int]).map Prod.fst = ["U"] := by
  decide +kernel

theorem clear_strangers {frame : List (String × Ty)} {ts : List TypeExpr}
    (hnames : ∀ name ∈ TypeExpr.lookupsAll mentioningPackage.writtenNames ts,
      name = "U" ∨ name = "T") (hframe : frame.map Prod.fst = ["U"]) :
    mentioningPackage.Clear {} strangers frame ts := by
  intro name hname hfree
  rcases hnames name hname with rfl | rfl
  · rw [hframe] at hfree
    simp at hfree
  · rfl

theorem instantiation_hygienic_strangers :
    let c : Context := { bindings := strangers, block := some 0, templates := ["W"] }
    run mentioningPackage {} 3 c (instantiateSig 0 [] [.base .int]) {} =
        run mentioningPackage {} 3 {} (instantiateSig 0 [] [.base .int]) {} ∧
      run mentioningPackage {} 3 c (structFields 1 [.base .int]) {} =
        run mentioningPackage {} 3 {} (structFields 1 [.base .int]) {} := by
  obtain ⟨hfunc, hfuncFrame, hstruct, hstructFrame⟩ := mentioning_lookups
  have hclear := instantiation_hygienic mentioningPackage {} 3 {} strangers (some 0) ["W"] {}
  exact ⟨hclear.1 0 [] [.base .int] (clear_strangers (by simp [hfunc]) hfuncFrame),
    hclear.2 1 [.base .int] (clear_strangers (by simp [hstruct, or_comm]) hstructFrame)⟩

set_option maxRecDepth 100000 in
/-- Under a frame that binds `T` the parameter and the field of type `T` have
the type of the caller's parameter, and nothing is reported of the call. -/
theorem callerParameter_captures :
    let kinds (b : Bindings) : Option String :=
      (run mentioningPackage {} 3 { bindings := b } (instantiateSig 0 [] [.base .int]) {}).map
        fun r => (Ty.function r.1).kind
    let fieldKinds (b : Bindings) : Option (List (String × String)) :=
      (run mentioningPackage {} 3 { bindings := b } (structFields 1 [.base .int]) {}).map
        fun r => r.1.map fun f => (f.1, f.2.kind)
    kinds {} = some "fn(int, T)" ∧ kinds ⟨[[("T", .base .int)]]⟩ = some "fn(int, int)" ∧
      fieldKinds {} = some [("p", "*T"), ("q", "int")] ∧
      fieldKinds ⟨[[("T", .base .int)]]⟩ = some [("p", "*int"), ("q", "int")] ∧
      (Report.check {} [mentioning]).map Report.hasErrors = some false := by
  decide +kernel

end JaneCheck.Check
