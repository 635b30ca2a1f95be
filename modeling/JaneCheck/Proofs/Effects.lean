import JaneCheck.Proofs.Runs

/-!
# What resolution and evaluation change

`Effect p s s'` is one change of the state, of those that declare no variable,
and `Trace p o b s s'` a sequence of them. In a trace, the changes that come
from the types of a template and from the value of a global stand together,
with the run that made them; `b` says whether globals are reported where they
are computed.

A void read has its source in the state: a variable or a global that is void.
`GlobalRun` has a rule for each thing that asking for a global can do.
-/

namespace JaneCheck

/-- The global is in the table or under a name. -/
def Package.HasGlobal (p : Package) (id : GlobalId) : Prop :=
  id < p.globals.size ∨ ∃ name, p.lookup? name = some (.global id)

namespace Check

/-! ## Contexts -/

/-- The context in which a global is computed. -/
def Context.openGlobal (c : Context) (id : GlobalId) : Context :=
  { c with
    block := none, templates := [], bindings := {}, func := {}, globalPath := id :: c.globalPath }

/-- The context in which the types of a template are resolved. -/
def Context.openTemplate (c : Context) (frame : List (String × Ty)) : Context :=
  { c with block := none, templates := [], bindings := c.bindings.pushFrame frame }

/-! ## Globals -/

/-- The state after a cycle was closed at a global. -/
def State.closeGlobals (s : State) (path : List GlobalId) (id : GlobalId) (info : GlobalInfo) :
    State :=
  { s with
    cyclicGlobals := cycleMembers path id ++ s.cyclicGlobals
    diags := s.diags.push ⟨.cycle info.name, info.decl.name.span⟩ }

/-- The state in which the value of a global is remembered, void for a member of
a cycle. -/
def State.rememberGlobal (s : State) (id : GlobalId) (v : Value) : State :=
  { s with globalCache := (id, if s.cyclicGlobals.contains id then .void else v) :: s.globalCache }

/-- The state after a part that began in `s`: when it is not heard, its
diagnostics are dropped. -/
def State.heard (s' s : State) (b : Bool) : State := if b then s' else { s' with diags := s.diags }

/-- The global is to be computed: nothing is known of it. -/
structure FreshGlobal (p : Package) (id : GlobalId) (s : State) : Prop where
  value : (p.global id).value = none
  acyclic : id ∉ s.cyclicGlobals
  unanswered : s.globalCache.lookup id = none

inductive GlobalRun (env : Env) (id : GlobalId) (s : State) : Value → State → Prop
  | valued {v} (h : (env.package.global id).value = some v) : GlobalRun env id s v s
  | cyclic (hvalue : (env.package.global id).value = none) (h : id ∈ s.cyclicGlobals) :
      GlobalRun env id s .void s
  | answered {v} (hvalue : (env.package.global id).value = none) (hacyclic : id ∉ s.cyclicGlobals)
      (h : s.globalCache.lookup id = some v) : GlobalRun env id s v s
  | cycle (hfresh : FreshGlobal env.package id s) (hpath : id ∈ env.context.globalPath) :
      GlobalRun env id s .void
        (s.closeGlobals env.context.globalPath id (env.package.global id))
  | computed {v s1} (hfresh : FreshGlobal env.package id s) (hpath : id ∉ env.context.globalPath)
      (hrun : (computeGlobal (env.package.global id).decl
        { env with context := env.context.openGlobal id }).run s = some (v, s1)) :
      GlobalRun env id s (if s1.cyclicGlobals.contains id then .void else v)
        ((s1.heard s env.context.reportGlobals).rememberGlobal id v)

theorem State.heard_cyclicGlobals (s' s : State) (b : Bool) :
    (s'.heard s b).cyclicGlobals = s'.cyclicGlobals := by
  cases b <;> rfl

theorem run_heard {env : Env} {s s' : State} {x : Check α} {a : α} {b : Bool} :
    ((if b then x else quietly x) env).run s = some (a, s') ↔
      ∃ s1, (x env).run s = some (a, s1) ∧ s' = s1.heard s b := by
  cases b with
  | false => exact run_quietly
  | true => exact ⟨fun h => ⟨s', h, rfl⟩, fun ⟨_, h, he⟩ => he ▸ h⟩

theorem globalRun_of_run {env : Env} {id : GlobalId} {s s' : State} {a : Value}
    (h : (globalValue id env).run s = some (a, s')) : GlobalRun env id s a s' := by
  have hleads : Leads .any env s (globalValue id) (GlobalRun env id s) := by
    refine .package (.state (.context ?_))
    split
    next v hv => exact .pure (.valued hv)
    next hvalue =>
    replace hvalue := Option.eq_none_iff_forall_ne_some.mpr hvalue
    split
    next hcyclic => exact .pure (.cyclic hvalue (List.contains_iff_mem.mp hcyclic))
    next hacyclic =>
    rw [List.contains_iff_mem] at hacyclic
    split
    next v hv => exact .pure (.answered hvalue hacyclic hv)
    next hnew =>
    have hfresh : FreshGlobal env.package id s :=
      ⟨hvalue, hacyclic, Option.eq_none_iff_forall_ne_some.mpr hnew⟩
    split
    next hpath =>
      intro a s' h _
      cases h
      exact .cycle hfresh (List.contains_iff_mem.mp hpath)
    next hpath =>
      refine .after fun v s1 hrun => .state (.bind (M := fun _ s' => s' = s1.rememberGlobal id v)
        (leads_update rfl) fun _ s' _ hs' => .pure ?_)
      subst hs'
      replace hrun : ((if env.context.reportGlobals then computeGlobal (env.package.global id).decl
        else quietly (computeGlobal (env.package.global id).decl))
        { env with context := env.context.openGlobal id }).run s = some (v, s1) := hrun
      obtain ⟨s2, hcompute, rfl⟩ := run_heard.mp hrun
      rw [State.heard_cyclicGlobals]
      exact .computed hfresh (fun hmem => hpath (List.contains_iff_mem.mpr hmem)) hcompute
  exact hleads h trivial

/-- Conversely, each of these is a run. -/
theorem GlobalRun.run {env : Env} {id : GlobalId} {s s' : State} {a : Value}
    (h : GlobalRun env id s a s') : (globalValue id env).run s = some (a, s') := by
  suffices hgives : Gives env s (globalValue id) fun r t => r = a ∧ t = s' by
    obtain ⟨_, _, hrun, rfl, rfl⟩ := hgives
    exact hrun
  refine .package (.state (.context ?_))
  cases h with
  | valued h =>
    rw [h]
    exact .pure ⟨rfl, rfl⟩
  | cyclic hvalue h =>
    rw [hvalue]
    rw [if_pos (List.contains_iff_mem.mpr h)]
    exact .pure ⟨rfl, rfl⟩
  | answered hvalue hacyclic h =>
    rw [hvalue, h]
    rw [if_neg fun hmem => hacyclic (List.contains_iff_mem.mp hmem)]
    exact .pure ⟨rfl, rfl⟩
  | cycle hfresh hpath =>
    rw [hfresh.value, hfresh.unanswered]
    rw [if_neg fun hmem => hfresh.acyclic (List.contains_iff_mem.mp hmem),
      if_pos (List.contains_iff_mem.mpr hpath)]
    exact ⟨_, _, rfl, rfl, rfl⟩
  | @computed v s1 hfresh hpath hrun =>
    rw [hfresh.value, hfresh.unanswered]
    rw [if_neg fun hmem => hfresh.acyclic (List.contains_iff_mem.mp hmem),
      if_neg fun hmem => hpath (List.contains_iff_mem.mp hmem)]
    refine ⟨_, _, run_bind.mpr ⟨v, _, run_heard.mpr ⟨s1, hrun, rfl⟩, rfl⟩, ?_, rfl⟩
    rw [State.heard_cyclicGlobals]

/-! ## Effects -/

/-- Where a void value is read from. -/
inductive VoidSource (p : Package) (s : State) : Prop
  | var {v : Var} (h : v ∈ s.scopes.vars) (hvoid : v.type.isVoid = true)
  | value {id v} (h : (p.global id).value = some v) (hvoid : v.type.isVoid = true)
  | answer {id v} (hid : p.HasGlobal id) (h : (id, v) ∈ s.globalCache)
      (hvoid : v.type.isVoid = true)
  | cyclic {id} (hid : p.HasGlobal id) (h : id ∈ s.cyclicGlobals)

inductive Effect (p : Package) : State → State → Prop
  | report {s diags} (h : s.diags.toList <+: diags.toList) : Effect p s { s with diags }
  | annotate {s} (t : Typing) : Effect p s { s with typings := s.typings.push t }
  | request {s} (r : Request) : Effect p s { s with requests := s.requests.push r }
  | useVar {s} (id : VarId) :
      Effect p s { s with scopes := s.scopes.modifyVar id fun v => { v with used := true } }
  | blocks {s} (blocks : Array Scopes.Block) :
      Effect p s { s with scopes := { s.scopes with blocks } }
  | jumps {s} (labels : List Label) (gotos : List Goto) : Effect p s { s with labels, gotos }
  | closeCycle {s path id info} : Effect p s (s.closeCycle path id info)
  | remember {s id r} : Effect p s (s.remember id r)
  | closeGlobals {s path id info} (hid : p.HasGlobal id) (hvalue : (p.global id).value = none) :
      Effect p s (s.closeGlobals path id info)
  | voidRead {s} (h : VoidSource p s) : Effect p s { s with voidReads := s.voidReads + 1 }

/-- The types of a template are resolved under type arguments: a signature, all fields
or one. What is reported on the way, and is still in `s'`, will be dropped. -/
inductive TemplateRun (p : Package) (o : Options) (b : Bool) (s s' : State) : Prop
  | sig {n id frame sig} {c : Context} (hb : c.reportGlobals = b)
      (h : (resolveSignature (p.func id).decl.params (p.func id).decl.ret (p.func id).decl.receiver
        (p.func id).decl.isUnsafe (envAt p o n (c.openTemplate frame))).run s = some (sig, s'))
  | fields {n id frame fields} {c : Context} (hb : c.reportGlobals = b)
      (h : (fieldTypes (p.struct id).decl.fields (envAt p o n (c.openTemplate frame))).run s =
        some (fields, s'))
  | field {n id field t} {c : Context} (hb : c.reportGlobals = b)
      (hfield : field ∈ (p.struct id).decl.fields)
      (h : (resolveOrVoid field.type (envAt p o n c)).run s = some (t, s'))

inductive Trace (p : Package) (o : Options) (b : Bool) : State → State → Prop
  | refl (s) : Trace p o b s s
  | step {s s'} (h : Effect p s s') : Trace p o b s s'
  | trans {s1 s2 s3} (h : Trace p o b s1 s2) (h' : Trace p o b s2 s3) : Trace p o b s1 s3
  | template {s s'} (hrun : TemplateRun p o b s s') (h : Trace p o b s s') :
      Trace p o b s { s' with diags := s.diags }
  | global {s s' n id v} {c : Context} (hb : c.reportGlobals = b) (hid : p.HasGlobal id)
      (hvalue : (p.global id).value = none)
      (hrun : (computeGlobal (p.global id).decl (envAt p o n (c.openGlobal id))).run s = some (v, s'))
      (h : Trace p o b s s') : Trace p o b s ((s'.heard s b).rememberGlobal id v)

section Sources

variable {p : Package} {o : Options} {n : Nat} {c : Context} {s s' : State} {v : Value}

/-- A void value of a global has its source in the state after it was asked for. -/
theorem voidSource_global {id : GlobalId} (hid : p.HasGlobal id)
    (h : GlobalRun (envAt p o n c) id s v s') (hvoid : v.type.isVoid = true) : VoidSource p s' := by
  cases h with
  | valued h => exact .value h hvoid
  | cyclic _ h => exact .cyclic hid h
  | answered _ _ h =>
    obtain ⟨_, _, he, -⟩ := List.lookup_eq_some_iff.mp h
    have hmem : (id, v) ∈ s.globalCache := by simp [he]
    exact .answer hid hmem hvoid
  | cycle _ hpath =>
    have hmem : id ∈ cycleMembers c.globalPath id := by simp [cycleMembers]
    exact .cyclic hid (List.mem_append_left _ hmem)
  | @computed w s1 _ _ _ =>
    have hmem : (id, if s1.cyclicGlobals.contains id then .void else w) ∈
        ((s1.heard s c.reportGlobals).rememberGlobal id w).globalCache := by
      rw [State.rememberGlobal, State.heard_cyclicGlobals]
      exact List.mem_cons_self
    exact .answer hid hmem hvoid

theorem trace_globalRun {id : GlobalId} (hid : p.HasGlobal id)
    (hcompute : id ∉ c.globalPath → ∀ {v s1}, (computeGlobal (p.global id).decl
      (envAt p o n (c.openGlobal id))).run s = some (v, s1) → Trace p o c.reportGlobals s s1)
    (h : GlobalRun (envAt p o n c) id s v s') : Trace p o c.reportGlobals s s' := by
  cases h with
  | valued _ | cyclic _ _ | answered _ _ _ => exact .refl s
  | cycle hfresh _ => exact .step (.closeGlobals hid hfresh.value)
  | computed hfresh hpath hrun => exact .global rfl hid hfresh.value hrun (hcompute hpath hrun)

theorem exists_var_of_lookup {scopes : Scopes} {b : BlockId} {name : String} {id : VarId}
    (h : scopes.lookup? b name = some id) : ∃ var, scopes.vars[id]? = some var := by
  obtain ⟨b', -, h⟩ := List.exists_of_findSome?_eq_some h
  obtain ⟨block, -, h⟩ := Option.bind_eq_some_iff.mp h
  have hany := List.find?_some h
  cases hv : scopes.vars[id]? with
  | none => simp [hv] at hany
  | some var => exact ⟨var, rfl⟩

theorem run_lookupVar {env : Env} {name : String} {found : Option VarId}
    (h : (lookupVar name env).run s = some (found, s')) :
    s' = s ∧ ∀ id ∈ found, ∃ var, s.scopes.vars[id]? = some var := by
  obtain ⟨rfl, rfl⟩ := (gives_lookupVar name).of_run h
  refine ⟨rfl, fun id hid => ?_⟩
  obtain ⟨b, -, hid⟩ := Option.bind_eq_some_iff.mp hid
  exact exists_var_of_lookup hid

/-- A variable that is void is the source of its void value. -/
theorem run_useVar {env : Env} {id : VarId} {var : Var} (hvar : s.scopes.vars[id]? = some var)
    (h : (useVar id env).run s = some (v, s')) :
    s' = s.useVar id ∧ (v.type.isVoid = true → VoidSource p s') := by
  obtain ⟨rfl, rfl⟩ := (gives_useVar id).of_run h
  have hused : (s.useVar id).scopes.vars[id]? = some { var with used := true } := by
    simp [State.useVar, Scopes.modifyVar, Array.getElem?_modify, hvar]
  rw [hvar]
  exact ⟨rfl, fun hvoid => .var (Array.mem_of_getElem? hused) hvoid⟩

end Sources

end Check

end JaneCheck
