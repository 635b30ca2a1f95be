import JaneCheck.Package.Instances
import JaneCheck.Proofs.BlockNames
import JaneCheck.Proofs.Levels.Ranks
import JaneCheck.Proofs.Levels.Statement

/-!
# What every level does

A relation that holds of all that is run above a level where it holds is true of
every level (`level_of_ran`). So resolution and evaluation leave traces, report no
jump, change nothing of the scopes but marks, and answer the same from every state
of one view (`AsksFor.replays`). Beside them a statement declares names: what
becomes of a variable and of a local alias is said case by case.
-/

namespace JaneCheck

open Syntax (Expr Stmt TypeExpr)

namespace Check

variable {p : Package} {o : Options}

/-! ## Levels -/

/-- What is in `K` for all that is run above a level that is in `K` is so for
every level. -/
theorem level_of_ran {K : Context → State → State → Prop}
    (h : ∀ {n c s s'}, Ran p o n c s s' → Level p o n K → K c s s') (n : Nat) : Level p o n K := by
  induction n with
  | zero =>
    refine ⟨fun c t s a s' h => ?_, fun c e hint s a s' h => ?_⟩
    · simp [resolveAt, Step.tooDeep] at h
    · simp [evalAt, Step.tooDeep] at h
  | succ n ih =>
    refine ⟨fun c t s a s' hrun => ?_, fun c e hint s a s' hrun => ?_⟩
    · exact h ((asks_resolveStep_lax allows_any fun _ _ => trivial).ran hrun) ih
    · exact h ((asks_evalStep_lax allows_any fun _ _ => trivial).ran hrun) ih

section Asks

variable {Q : Context → Part → Prop} {x : Check α} {R : α → Prop} {n : Nat} {c : Context}
  {s s' : State} {a : α}

theorem AsksFor.traces (hx : AsksFor (.lax p Q) c x R) (h : run p o n c x s = some (a, s')) :
    Trace p o c.reportGlobals s s' :=
  (hx.ran h).trace (level_of_ran Ran.trace n)

theorem AsksFor.jumpFree (hx : AsksFor (.lax p Q) c x R) (h : run p o n c x s = some (a, s')) :
    s.JumpFree s' :=
  (hx.ran h).jumpFree (level_of_ran Ran.jumpFree n)

theorem AsksFor.view_eq (hx : AsksFor (.lax p Q) c x R) (hp : p.Resolved)
    (h : run p o n c x s = some (a, s')) :
    s'.view = s.view :=
  ((hx.ran h).beside (level_of_ran Ran.beside n)).2 hp

theorem beside_of_asks (hx : AsksFor (.any p) c x R) (h : run p o n c x s = some (a, s')) :
    s.Beside s' :=
  ((hx.ran h).beside (level_of_ran Ran.beside n)).1

/-- A check answers the same from every state of one view, when the levels do. -/
theorem AsksFor.mirrors_view (hx : AsksFor (.lax p Q) c x R)
    (hn : (∀ c t, (resolveAt p o n c t).Mirrors (fun s t => t.view = s.view)
      (resolveAt p o n c t)) ∧
      ∀ c e hint, (evalAt p o n c e hint).Mirrors (fun s t => t.view = s.view)
        (evalAt p o n c e hint)) :
    (x (envAt p o n c)).Mirrors (fun s t => t.view = s.view) (x (envAt p o n c)) :=
  hx.mirrors_same viewing_view (fun h => (State.beside_of_view h).scopes) (fun c t _ => hn.1 c t)
    fun c e hint _ => hn.2 c e hint

theorem views_at (n : Nat) :
    (∀ c t, (resolveAt p o n c t).Mirrors (fun s t => t.view = s.view) (resolveAt p o n c t)) ∧
    ∀ c e hint, (evalAt p o n c e hint).Mirrors (fun s t => t.view = s.view)
      (evalAt p o n c e hint) := by
  induction n with
  | zero =>
    refine ⟨fun c t s a s' h => ?_, fun c e hint s a s' h => ?_⟩
    · simp [resolveAt, Step.tooDeep] at h
    · simp [evalAt, Step.tooDeep] at h
  | succ n ih =>
    refine ⟨fun c t => ?_, fun c e hint => ?_⟩
    · exact (asks_resolveStep_lax allows_any fun _ _ => trivial).mirrors_view ih
    · exact (asks_evalStep_lax allows_any fun _ _ => trivial).mirrors_view ih

/-- A check answers the same from every state of one view, and adds the same. -/
theorem AsksFor.replays (hx : AsksFor (.lax p Q) c x R) (h : run p o n c x s = some (a, s')) :
    ∃ out, s.Adds out s' ∧ ∀ t, t.view = s.view →
      ∃ t', run p o n c x t = some (a, t') ∧ t.Adds out t' ∧ t'.view = s'.view := by
  obtain ⟨out, hadds⟩ := ((x (envAt p o n c)).le h).adds
  refine ⟨out, hadds, fun t ht => ?_⟩
  obtain ⟨t', hrun, hview, out', hs, ht⟩ := hx.mirrors_view (views_at n) h ht
  obtain rfl := hadds.unique hs
  exact ⟨t', hrun, ht, hview⟩

end Asks

/-! ## Names of blocks -/

section Names

variable {n : Nat} {c : Context} {s s' : State}

/-- What is done with a variable for the current block. -/
inductive Declared (c : Context) (v : Var) (s : State) : State → Prop
  | skipped (h : v.name = "_" ∨ c.block = none) : Declared c v s s
  | taken {b} (hb : c.block = some b) (h : v.name ∈ s.scopes.varNames b) :
    Declared c v s { s with diags := s.diags.push ⟨.nameTaken v.name, v.span⟩ }
  | added {b id scopes} (hb : c.block = some b) (h : s.scopes.declare b v = .ok (id, scopes)) :
    Declared c v s { s with scopes }

theorem gives_declare {env : Env} (v : Var) :
    Gives env s (declare v) fun _ s' => Declared env.context v s s' := by
  unfold declare
  split
  next hname => exact .pure (.skipped (.inl (by simpa using hname)))
  refine .context ?_
  split
  next hb => exact .pure (.skipped (.inr hb))
  next b hb =>
    refine .state ?_
    split
    next id scopes hdeclare => exact ⟨(), _, rfl, .added hb hdeclare⟩
    next existing hdeclare => exact ⟨(), _, rfl, .taken hb (Scopes.name_mem_of_declare hdeclare)⟩

/-- What is done with an alias for the current block. -/
inductive Aliased (p : Package) (o : Options) (n : Nat) (c : Context) (a : Syntax.TypeAlias)
    (s : State) : State → Prop
  | outside (hb : c.block = none) : Aliased p o n c a s s
  | taken {b} (hb : c.block = some b)
    (h : a.name.name ∈ s.scopes.aliasNames b ∨ a.name.name ∈ s.scopes.varNames b) :
    Aliased p o n c a s { s with diags := s.diags.push ⟨.nameTaken a.name.name, a.name.span⟩ }
  | unresolved {b s'} (hb : c.block = some b)
    (hfree : a.name.name ∉ s.scopes.aliasNames b ∧ a.name.name ∉ s.scopes.varNames b)
    (h : run p o n c (resolve a.target) s = some (none, s')) : Aliased p o n c a s s'
  | added {b t s'} (hb : c.block = some b)
    (hfree : a.name.name ∉ s.scopes.aliasNames b ∧ a.name.name ∉ s.scopes.varNames b)
    (hsame : s.scopes.SameNames s'.scopes)
    (h : run p o n c (resolve a.target) s = some (some t, s')) :
    Aliased p o n c a s { s' with
      scopes := s'.scopes.addAlias b { name := a.name.name, type := t, span := a.name.span } }

theorem aliased_of_run {a : Syntax.TypeAlias}
    (h : run p o n c (checkLocalAlias a) s = some ((), s')) : Aliased p o n c a s s' := by
  suffices hleads : Leads .any (envAt p o n c) s (checkLocalAlias a) fun _ s' =>
      Aliased p o n c a s s' from hleads h trivial
  refine .context ?_
  split
  next b hb =>
    refine .state ?_
    dsimp only
    split
    next htaken =>
      refine leads_update (.taken hb ?_)
      simpa [Option.isSome_iff_ne_none, Scopes.localAlias?_eq_none_iff, Scopes.local?_eq_none_iff]
        using htaken
    next hfree =>
      have hfree : a.name.name ∉ s.scopes.aliasNames b ∧ a.name.name ∉ s.scopes.varNames b := by
        simpa [Scopes.localAlias?_eq_none_iff, Scopes.local?_eq_none_iff] using hfree
      refine .bind (M := fun r s1 => run p o n c (resolve a.target) s = some (r, s1))
        (fun _ _ hrun _ => hrun) fun r s1 _ hresolve => ?_
      cases r with
      | none => exact .pure (.unresolved hb hfree hresolve)
      | some t =>
        have hbeside := beside_of_asks (.resolve trivial) hresolve
        exact leads_update (.added hb hfree (Scopes.sameNames_bare hbeside.scopes) hresolve)
  next hb => exact .pure (.outside (Option.eq_none_iff_forall_ne_some.mpr fun b => hb b))

end Names

end Check

end JaneCheck
