import JaneCheck.Check.Eval
import JaneCheck.Proofs.Denotes

/-!
# Runs of resolution

`Leads G env s x Q` is the judgement on runs of a check: from the state `s` the
answer and the last state of `x` satisfy `Q`, if the last state satisfies the
guard `G`. A guard is a property that later states can only lose, so it may be
assumed of every state on the way.

What a run has gone through follows from it. `AliasRun` has a rule for each
thing that asking for an alias can do.

`Gives env s x Q` says of a check that it ends, and with an answer and a state that
satisfy `Q`.
-/

namespace JaneCheck.Check

open Syntax (Expr Ident TypeExpr)

/-- The environment with `n` levels below. -/
def envAt (p : Package) (o : Options) (n : Nat) (c : Context) : Env :=
  ⟨p, o, c, resolveAt p o n, evalAt p o n⟩

/-! ## Steps -/

section Steps

theorem exists_of_both {x : Option α} {y : Option β} {f : α → β → γ} {c : γ}
    (h : (do return f (← x) (← y)) = some c) : ∃ a b, x = some a ∧ y = some b ∧ f a b = c := by
  cases x <;> cases y <;> cases h
  exact ⟨_, _, rfl, rfl, rfl⟩

theorem none_of_both {x : Option α} {y : Option β} {f : α → β → γ}
    (h : (do return f (← x) (← y)) = none) : x = none ∨ y = none := by
  cases x <;> cases y <;> simp_all

variable {env : Env} {s s' : State}

theorem run_bind_eq {x : Check α} {f : α → Check β} :
    ((x >>= f) env).run s = match (x env).run s with
      | some (a, t) => (f a env).run t
      | none => none := rfl

theorem run_bind {x : Check α} {f : α → Check β} {b : β} :
    ((x >>= f) env).run s = some (b, s') ↔
      ∃ a s1, (x env).run s = some (a, s1) ∧ (f a env).run s1 = some (b, s') := by
  rw [run_bind_eq]
  constructor
  · intro h
    split at h
    next a t ht => exact ⟨a, t, ht, h⟩
    next => cases h
  · rintro ⟨a, s1, hx, hf⟩
    rw [hx]
    exact hf

/-- Each round of a loop is run, from a state with what the rounds before it keep. -/
theorem run_of_mem_forM {I : State → Prop} {as : List α} {f : α → Check Unit} {a : α}
    (hf : ∀ a ∈ as, ∀ s s', I s → (f a env).run s = some ((), s') → I s') (ha : a ∈ as) (hs : I s)
    (h : (as.forM f env).run s = some ((), s')) :
    ∃ s1 s2, I s1 ∧ (f a env).run s1 = some ((), s2) ∧ s2.Le s' := by
  induction as generalizing s with
  | nil => cases ha
  | cons b as ih =>
    obtain ⟨⟨⟩, s1, hb, hrest⟩ := run_bind.mp h
    rcases List.mem_cons.mp ha with rfl | ha
    · exact ⟨s, s1, hs, hb, Step.le _ hrest⟩
    · exact ih (fun c hc => hf c (List.mem_cons_of_mem b hc)) ha
        (hf b List.mem_cons_self s s1 hs hb) hrest

theorem run_quietly {x : Check α} {a : α} :
    (quietly x env).run s = some (a, s') ↔
      ∃ s1, (x env).run s = some (a, s1) ∧ s' = { s1 with diags := s.diags } := by
  constructor
  · intro h
    obtain ⟨⟨b, s1⟩, hrun, he⟩ := Option.map_eq_some_iff.mp h
    cases he
    exact ⟨s1, hrun, rfl⟩
  · rintro ⟨s1, hrun, rfl⟩
    exact Option.map_eq_some_iff.mpr ⟨(a, s1), hrun, rfl⟩

/-- What runs inside a new block, after its entry into the scopes. -/
theorem run_withBlock {x : BlockId → Check α} {isUnsafe : Bool} {a : α}
    (h : (withBlock isUnsafe x env).run s = some (a, s')) :
    ∃ b scopes s1, (x b { env with context := Excursion.block b env.context }).run
      { s with scopes } = some (a, s1) ∧ s1.Le s' := by
  obtain ⟨c, _, hcontext, h⟩ := run_bind.mp h
  cases hcontext
  obtain ⟨_, _, hstate, h⟩ := run_bind.mp h
  cases hstate
  obtain ⟨⟨⟩, _, henter, h⟩ := run_bind.mp h
  cases henter
  obtain ⟨a, s1, hrun, h⟩ := run_bind.mp h
  obtain ⟨⟨⟩, s2, hunused, h⟩ := run_bind.mp h
  cases h
  exact ⟨_, _, s1, hrun, (reportUnused _ env).le hunused⟩

end Steps

/-! ## Runs under a guard -/

/-- What may be assumed of the last state of a run. It then holds of the states
before. -/
structure Guard where
  holds : State → Prop
  of_le : ∀ {s s' : State}, s.Le s' → holds s' → holds s

/-- Nothing is assumed. -/
def Guard.any : Guard where
  holds _ := True
  of_le _ h := h

def Leads (G : Guard) (env : Env) (s : State) (x : Check α) (Q : α → State → Prop) : Prop :=
  ∀ ⦃a s'⦄, (x env).run s = some (a, s') → G.holds s' → Q a s'

section Rules

variable {G : Guard} {env : Env} {s : State} {Q : α → State → Prop}

theorem Leads.pure {a : α} (h : Q a s) : Leads G env s (pure a) Q := by
  intro _ _ he _
  cases he
  exact h

theorem Leads.bind {x : Check β} {f : β → Check α} {M : β → State → Prop} (hx : Leads G env s x M)
    (hf : ∀ b s1, (x env).run s = some (b, s1) → M b s1 → Leads G env s1 (f b) Q) :
    Leads G env s (x >>= f) Q := by
  intro a s' he hg
  obtain ⟨b, s1, hrun, he⟩ := run_bind.mp he
  exact hf b s1 hrun (hx hrun (G.of_le ((f b env).le he) hg)) he hg

theorem Leads.stop {x : Check β} {f : β → Check α} (hx : Leads G env s x fun _ _ => False) :
    Leads G env s (x >>= f) Q :=
  .bind hx fun _ _ _ h => h.elim

theorem Leads.after {x : Check β} {f : β → Check α}
    (hf : ∀ b s1, (x env).run s = some (b, s1) → Leads G env s1 (f b) Q) :
    Leads G env s (x >>= f) Q :=
  .bind (M := fun _ _ => True) (fun _ _ _ _ => trivial) fun b s1 hrun _ => hf b s1 hrun

theorem Leads.mono {x : Check α} {R : α → State → Prop} (hx : Leads G env s x Q)
    (h : ∀ a s', Q a s' → R a s') : Leads G env s x R :=
  fun _ _ he hg => h _ _ (hx he hg)

theorem Leads.package {f : Package → Check α} (h : Leads G env s (f env.package) Q) :
    Leads G env s (package >>= f) Q := h

theorem Leads.context {f : Context → Check α} (h : Leads G env s (f env.context) Q) :
    Leads G env s (context >>= f) Q := h

theorem Leads.state {f : State → Check α} (h : Leads G env s (f s) Q) :
    Leads G env s (state >>= f) Q := h

theorem Leads.inContext {f : Excursion} {x : Check α}
    (h : Leads G { env with context := f env.context } s x Q) :
    Leads G env s (inContext f x) Q := h

theorem leads_update {f : State → State} {le : ∀ s : State, s.Le (f s)}
    {Q : Unit → State → Prop} (h : Q () (f s)) : Leads G env s (update f le) Q := by
  intro _ _ he _
  cases he
  exact h

end Rules

/-! ## Checks that end -/

def Gives (env : Env) (s : State) (x : Check α) (Q : α → State → Prop) : Prop :=
  ∃ a s', (x env).run s = some (a, s') ∧ Q a s'

section Ends

variable {env : Env} {s : State} {Q : α → State → Prop}

theorem Gives.pure {a : α} (h : Q a s) : Gives env s (pure a) Q := ⟨a, s, rfl, h⟩

theorem Gives.bind {x : Check β} {f : β → Check α} {M : β → State → Prop} (hx : Gives env s x M)
    (hf : ∀ b s1, M b s1 → s.Le s1 → Gives env s1 (f b) Q) : Gives env s (x >>= f) Q := by
  obtain ⟨b, s1, hrun, hb⟩ := hx
  obtain ⟨a, s', hrun', ha⟩ := hf b s1 hb ((x env).le hrun)
  exact ⟨a, s', run_bind.mpr ⟨b, s1, hrun, hrun'⟩, ha⟩

theorem Gives.mono {x : Check α} {R : α → State → Prop} (hx : Gives env s x Q)
    (h : ∀ a s', Q a s' → R a s') : Gives env s x R := by
  obtain ⟨a, s', hrun, ha⟩ := hx
  exact ⟨a, s', hrun, h a s' ha⟩

theorem Gives.of_run {x : Check α} {a : α} {s' : State} (h : Gives env s x Q)
    (hrun : (x env).run s = some (a, s')) : Q a s' := by
  obtain ⟨a', s'', hrun', hQ⟩ := h
  cases hrun.symm.trans hrun'
  exact hQ

theorem Gives.package {f : Package → Check α} (h : Gives env s (f env.package) Q) :
    Gives env s (package >>= f) Q := h

theorem Gives.context {f : Context → Check α} (h : Gives env s (f env.context) Q) :
    Gives env s (context >>= f) Q := h

theorem Gives.state {f : State → Check α} (h : Gives env s (f s) Q) :
    Gives env s (state >>= f) Q := h

theorem Gives.leads {x : Check α} {G : Guard} (h : Gives env s x Q) : Leads G env s x Q :=
  fun _ _ hrun _ => h.of_run hrun

theorem gives_lookupVar (name : String) : Gives env s (lookupVar name) fun found s' =>
    found = env.context.block.bind (s.scopes.lookup? · name) ∧ s' = s := by
  refine .context ?_
  cases env.context.block with
  | some b => exact .state (.pure ⟨rfl, rfl⟩)
  | none => exact .pure ⟨rfl, rfl⟩

def varValue (v : Var) : Value := { Value.place v.type v.mutable with constant := v.constant }

/-- The state in which a variable was used. -/
def State.useVar (s : State) (id : VarId) : State :=
  { s with scopes := s.scopes.modifyVar id fun v => { v with used := true } }

theorem gives_useVar (id : VarId) : Gives env s (useVar id) fun v s' =>
    v = (s.scopes.vars[id]?.map varValue).getD .void ∧ s' = s.useVar id := by
  refine .bind (M := fun _ s' => s' = s.useVar id) ⟨(), _, rfl, rfl⟩ ?_
  rintro _ _ rfl -
  refine .state ?_
  have hused : (s.useVar id).scopes.vars[id]? =
      s.scopes.vars[id]?.map fun v => { v with used := true } := by
    simp [State.useVar, Scopes.modifyVar, Array.getElem?_modify]
  rw [hused]
  cases s.scopes.vars[id]? <;> exact .pure ⟨rfl, rfl⟩

theorem gives_solve {l r : Value} {op : Syntax.BinOp} {span : Span} {Q : Value → State → Prop}
    {outcome : Operator.Outcome}
    (h : Operator.solve ⟨env.package.definitions, env.options.wordSize⟩ l op r = outcome)
    (hQ : Q outcome.1
      { s with diags := s.diags ++ outcome.2.map fun q => Diagnostic.mk q span }) :
    Gives env s (solve l op r span) Q := by
  subst h
  exact ⟨_, _, rfl, hQ⟩

/-- What is evaluated is evaluated one level below, and recorded. -/
theorem Gives.eval {p : Package} {o : Options} {n : Nat} {c : Context} {s : State} {e : Expr}
    {hint : Option Ty} {Q : Value → State → Prop}
    (h : Gives (envAt p o n c) s (exprValue e hint) fun v s' => v.isType = false ∧
      Q v { s' with typings := s'.typings.push ⟨e.span, v.type, v.constant⟩ }) :
    Gives (envAt p o (n + 1) c) s (Check.eval e hint) Q := by
  obtain ⟨v, s', hrun, hvalue, hQ⟩ := h
  have hannotate : (annotate e.span v (envAt p o n c)).run s' =
      some ((), { s' with typings := s'.typings.push ⟨e.span, v.type, v.constant⟩ }) := by
    simp only [annotate, hvalue, Bool.false_eq_true, if_false]
    rfl
  have hany : (evalAny e hint (envAt p o (n + 1) c)).run s = some (v, _) :=
    run_bind.mpr ⟨v, s', hrun, run_bind.mpr ⟨(), _, hannotate, rfl⟩⟩
  refine ⟨v, _, run_bind.mpr ⟨v, _, hany, ?_⟩, hQ⟩
  simp only [hvalue, Bool.false_eq_true, if_false]
  rfl

end Ends

/-! ## Aliases -/

/-- The context in which the target of an alias is resolved. -/
def Context.openAlias (c : Context) (id : AliasId) : Context :=
  { c with block := none, templates := [], bindings := {}, aliasPath := id :: c.aliasPath }

/-- The alias is to be resolved: nothing is known of it. -/
structure Fresh (p : Package) (id : AliasId) (s : State) : Prop where
  type : (p.typeAlias id).type = none
  unbroken : id ∉ p.brokenAliases
  acyclic : id ∉ s.cyclicAliases
  unanswered : s.aliasCache.lookup id = none

/-- The state after a cycle was closed at an alias. -/
def State.closeCycle (s : State) (path : List AliasId) (id : AliasId) (info : AliasInfo) : State :=
  { s with
    cyclicAliases := cycleMembers path id ++ s.cyclicAliases
    diags := s.diags.push ⟨.cycle info.name, info.decl.name.span⟩ }

/-- The answer for an alias whose target was resolved. -/
def State.answer (s : State) (id : AliasId) (r : Option Ty) : Option Ty :=
  if s.cyclicAliases.contains id then none else r

/-- The state in which the answer for an alias is remembered. -/
def State.remember (s : State) (id : AliasId) (r : Option Ty) : State :=
  { s with aliasCache := (id, r) :: s.aliasCache }

inductive AliasRun (env : Env) (id : AliasId) (s : State) : Option Ty → State → Prop
  | typed {t} (h : (env.package.typeAlias id).type = some t) : AliasRun env id s (some t) s
  | broken (htype : (env.package.typeAlias id).type = none) (h : id ∈ env.package.brokenAliases) :
      AliasRun env id s none s
  | cyclic (htype : (env.package.typeAlias id).type = none) (h : id ∈ s.cyclicAliases) :
      AliasRun env id s none s
  | answered {r} (htype : (env.package.typeAlias id).type = none)
      (hunbroken : id ∉ env.package.brokenAliases) (hacyclic : id ∉ s.cyclicAliases)
      (h : s.aliasCache.lookup id = some r) : AliasRun env id s r s
  | cycle (hfresh : Fresh env.package id s) (hpath : id ∈ env.context.aliasPath) :
      AliasRun env id s none
        (s.closeCycle env.context.aliasPath id (env.package.typeAlias id))
  | opened {r s1} (hfresh : Fresh env.package id s) (hpath : id ∉ env.context.aliasPath)
      (hrun : (env.resolveIn (env.context.openAlias id)
        (env.package.typeAlias id).decl.target).run s = some (r, s1)) :
      AliasRun env id s (s1.answer id r) (s1.remember id (s1.answer id r))

theorem aliasRun_of_run {env : Env} {id : AliasId} {s s' : State} {a : Option Ty}
    (h : (aliasType id env).run s = some (a, s')) : AliasRun env id s a s' := by
  have hleads : Leads .any env s (aliasType id) (AliasRun env id s) := by
    refine .package (.state (.context ?_))
    dsimp only
    split
    next t ht => exact .pure (.typed ht)
    next htype =>
    replace htype := Option.eq_none_iff_forall_ne_some.mpr htype
    split
    next hno =>
      rcases Bool.or_eq_true_iff.mp hno with hb | hcyclic
      · exact .pure (.broken htype (List.contains_iff_mem.mp hb))
      · exact .pure (.cyclic htype (List.contains_iff_mem.mp hcyclic))
    next hno =>
    rw [Bool.or_eq_true, not_or, List.contains_iff_mem, List.contains_iff_mem] at hno
    split
    next r hr => exact .pure (.answered htype hno.1 hno.2 hr)
    next hnew =>
    have hfresh : Fresh env.package id s :=
      ⟨htype, hno.1, hno.2, Option.eq_none_iff_forall_ne_some.mpr hnew⟩
    split
    next hpath =>
      intro a s' h _
      cases h
      exact .cycle hfresh (List.contains_iff_mem.mp hpath)
    next hpath =>
      refine .after fun r s1 hrun => .state (.bind (M := fun _ s' => s' = s1.remember id
        (s1.answer id r)) (leads_update rfl) fun _ s' _ hs' => .pure ?_)
      subst hs'
      exact .opened hfresh (fun hmem => hpath (List.contains_iff_mem.mpr hmem)) hrun
  exact hleads h trivial

/-- Conversely, each of these is a run. -/
theorem AliasRun.run {env : Env} {id : AliasId} {s s' : State} {a : Option Ty}
    (h : AliasRun env id s a s') : (aliasType id env).run s = some (a, s') := by
  suffices hgives : Gives env s (aliasType id) fun r t => r = a ∧ t = s' by
    obtain ⟨_, _, hrun, rfl, rfl⟩ := hgives
    exact hrun
  refine .package (.state (.context ?_))
  have hopen : id ∉ env.package.brokenAliases → id ∉ s.cyclicAliases →
      ¬(env.package.brokenAliases.contains id || s.cyclicAliases.contains id) = true := by
    intro hb hc
    rw [Bool.or_eq_true, not_or, List.contains_iff_mem, List.contains_iff_mem]
    exact ⟨hb, hc⟩
  cases h with
  | typed h =>
    rw [h]
    exact .pure ⟨rfl, rfl⟩
  | broken htype h =>
    rw [htype]
    simp only [List.contains_iff_mem.mpr h, Bool.true_or, if_true]
    exact .pure ⟨rfl, rfl⟩
  | cyclic htype h =>
    rw [htype]
    simp only [List.contains_iff_mem.mpr h, Bool.or_true, if_true]
    exact .pure ⟨rfl, rfl⟩
  | answered htype hunbroken hacyclic h =>
    rw [htype, h]
    dsimp only
    rw [if_neg (hopen hunbroken hacyclic)]
    exact .pure ⟨rfl, rfl⟩
  | cycle hfresh hpath =>
    rw [hfresh.type, hfresh.unanswered]
    dsimp only
    rw [if_neg (hopen hfresh.unbroken hfresh.acyclic), if_pos (List.contains_iff_mem.mpr hpath)]
    exact ⟨_, _, rfl, rfl, rfl⟩
  | opened hfresh hpath hrun =>
    rw [hfresh.type, hfresh.unanswered]
    dsimp only
    rw [if_neg (hopen hfresh.unbroken hfresh.acyclic),
      if_neg fun hmem => hpath (List.contains_iff_mem.mp hmem)]
    exact ⟨_, _, run_bind.mpr ⟨_, _, hrun, rfl⟩, rfl, rfl⟩

end JaneCheck.Check
