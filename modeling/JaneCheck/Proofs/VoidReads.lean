import JaneCheck.Proofs.Tables
import JaneCheck.Proofs.Traces

/-!
# Void reads

A failed value is void and comes with an error, or with a void read when it was
taken from a variable or global that is void itself. So a void read stands for
an error that was reported before, if there was one: `Trace.voidSource` says
where the read came from, and for globals `Trace.globalRoot` follows it to the
stretch of the run in which the first global is found to be void without an error.
There a global with a written type that is void is computed, or the types of a
template are resolved and an error is dropped.
-/

namespace JaneCheck

namespace Check

open Syntax (Expr GlobalDef TypeExpr)

/-! ## Failures -/

/-- Between the states a void value was read or an error reported. -/
def FailedBetween (s s' : State) : Prop :=
  s.voidReads < s'.voidReads ∨ ∃ d ∈ s'.diags.toList.drop s.diags.size, d.isError = true

def State.NoErrors (s : State) : Prop := ∀ d ∈ s.diags.toList, d.isError = false

def Guard.noErrors : Guard where
  holds s := s.NoErrors
  of_le hle h d hd := h d (hle.diags.mem hd)

theorem FailedBetween.voidReads {s s' : State} (h : FailedBetween s s') (hclean : s'.NoErrors) :
    0 < s'.voidReads := by
  rcases h with h | ⟨d, hd, he⟩
  · omega
  · simp [hclean d (List.mem_of_mem_drop hd)] at he

section Failures

variable {env : Env} {s s' : State}

theorem run_failedSince {m : Mark} {v : Value} {failed : Bool}
    (h : (failedSince m v env).run s = some (failed, s')) :
    s' = s ∧ (failed = true → m.voidReads < s.voidReads ∨
      ∃ d ∈ s.diags.toList.drop m.diags, d.isError = true) := by
  cases h
  refine ⟨rfl, fun h => ?_⟩
  rcases Bool.or_eq_true_iff.mp (Bool.and_eq_true_iff.mp h).2 with h | h
  · exact .inl (of_decide_eq_true h)
  · obtain ⟨d, hd, he⟩ := Array.any_eq_true'.mp h
    refine .inr ⟨d, ?_, he⟩
    rw [← Array.mem_toList_iff, Array.toList_extract] at hd
    exact List.mem_of_mem_take hd

/-- A value that failed leaves a void read or an error. -/
theorem failedBetween_evalChecked {e : Expr} {hint : Option Ty}
    (h : (evalChecked e hint env).run s = some (none, s')) : FailedBetween s s' := by
  obtain ⟨m, _, hm, h⟩ := run_bind.mp h
  cases hm
  obtain ⟨v, s1, -, h⟩ := run_bind.mp h
  obtain ⟨failed, s2, hfailed, h⟩ := run_bind.mp h
  obtain ⟨rfl, hwhy⟩ := run_failedSince hfailed
  cases failed with
  | false => cases h
  | true =>
    cases h
    exact hwhy rfl

theorem failedBetween_declaredValue {e : Expr} {hint : Option Ty}
    (h : (declaredValue e hint env).run s = some (none, s')) : FailedBetween s s' := by
  obtain ⟨m, _, hm, h⟩ := run_bind.mp h
  cases hm
  obtain ⟨v, s1, hv, h⟩ := run_bind.mp h
  have hle := ((evalAny e hint) env).le hv
  split at h
  · cases h
    refine .inr ⟨⟨.typeAsValue, e.span⟩, ?_, rfl⟩
    have hlen := hle.diags.length_le
    simp only [Array.length_toList] at hlen
    simp [List.drop_append_of_le_length, hlen]
  · obtain ⟨failed, s2, hfailed, h⟩ := run_bind.mp h
    obtain ⟨rfl, hwhy⟩ := run_failedSince hfailed
    cases failed with
    | false => cases h
    | true =>
      cases h
      exact hwhy rfl

end Failures

/-! ## What a trace leaves alone -/

section Traces

variable {p : Package} {o : Options} {b : Bool} {s s' : State}

theorem Effect.le (h : Effect p s s') : s.Le s' := by
  cases h with
  | report h => exact { State.Le.refl s with diags := h }
  | annotate t => exact { State.Le.refl s with typings := by simp }
  | request r => exact { State.Le.refl s with requests := by simp }
  | useVar id => exact { State.Le.refl s with }
  | blocks bs => exact { State.Le.refl s with }
  | jumps ls gs => exact { State.Le.refl s with }
  | closeCycle =>
    exact { State.Le.refl s with
      diags := by simp [State.closeCycle], cyclicAliases := List.suffix_append _ _ }
  | remember => exact { State.Le.refl s with aliasCache := List.suffix_cons _ _ }
  | closeGlobals _ _ =>
    exact { State.Le.refl s with
      diags := by simp [State.closeGlobals], cyclicGlobals := List.suffix_append _ _ }
  | voidRead _ => exact { State.Le.refl s with voidReads := Nat.le_succ _ }

theorem Trace.le (h : Trace p o b s s') : s.Le s' := by
  induction h with
  | refl s => exact .refl s
  | step h => exact h.le
  | trans _ _ ih ih' => exact ih.trans ih'
  | template _ _ ih => exact { ih with diags := List.prefix_rfl }
  | @global s s' n id v c _ _ _ _ _ ih =>
    have hheard : s.Le (s'.heard s b) := by
      cases b with
      | false => exact { ih with diags := List.prefix_rfl }
      | true => exact ih
    exact { hheard with globalCache := hheard.globalCache.trans (List.suffix_cons _ _) }

/-- A trace declares no variable. -/
theorem Trace.vars (h : Trace p o b s s') :
    s'.scopes.vars.map Var.bare = s.scopes.vars.map Var.bare := by
  induction h with
  | refl s => rfl
  | step h =>
    cases h with
    | useVar id => exact congrArg Scopes.vars (Scopes.bare_modifyVar _ id)
    | _ => rfl
  | trans _ _ ih ih' => exact ih'.trans ih
  | template _ _ ih => exact ih
  | global _ _ _ _ _ ih =>
    cases b with
    | false => exact ih
    | true => exact ih

theorem exists_bare_eq (h : s'.scopes.vars.map Var.bare = s.scopes.vars.map Var.bare) {v : Var}
    (hv : v ∈ s.scopes.vars) : ∃ w ∈ s'.scopes.vars, w.bare = v.bare := by
  have hmem : v.bare ∈ s'.scopes.vars.map Var.bare := h ▸ Array.mem_map_of_mem hv
  exact Array.mem_map.mp hmem

theorem VoidSource.mono (h : VoidSource p s)
    (hvars : s'.scopes.vars.map Var.bare = s.scopes.vars.map Var.bare)
    (hcache : s.globalCache ⊆ s'.globalCache) (hcyclic : s.cyclicGlobals ⊆ s'.cyclicGlobals) :
    VoidSource p s' := by
  cases h with
  | @var v hv hvoid =>
    obtain ⟨w, hw, he⟩ := exists_bare_eq hvars hv
    have htype : w.bare.type = v.bare.type := by rw [he]
    exact .var hw (hvoid ▸ congrArg Ty.isVoid htype)
  | value hv hvoid => exact .value hv hvoid
  | answer hid hv hvoid => exact .answer hid (hcache hv) hvoid
  | cyclic hid hmem => exact .cyclic hid (hcyclic hmem)

/-- A void read has its source in the state. -/
theorem Trace.voidSource (h : Trace p o b s s') (hreads : s.voidReads < s'.voidReads) :
    VoidSource p s' := by
  induction h with
  | refl s => omega
  | step h =>
    cases h with
    | voidRead hsource => exact hsource.mono rfl (List.Subset.refl _) (List.Subset.refl _)
    | _ => exact absurd hreads (Nat.lt_irrefl _)
  | @trans s1 s2 s3 h h' ih ih' =>
    by_cases hfirst : s1.voidReads < s2.voidReads
    · exact (ih hfirst).mono h'.vars h'.le.globalCache.subset h'.le.cyclicGlobals.subset
    · exact ih' (by omega)
  | template _ _ ih => exact (ih hreads).mono rfl (List.Subset.refl _) (List.Subset.refl _)
  | global _ _ _ _ _ ih =>
    cases b with
    | false => exact (ih hreads).mono rfl (List.subset_cons_self _ _) (List.Subset.refl _)
    | true => exact (ih hreads).mono rfl (List.subset_cons_self _ _) (List.Subset.refl _)

/-- Where every global has its value, a trace computes none. -/
theorem Trace.globals (h : Trace p o b s s') (hp : p.Valued) :
    s'.globalCache = s.globalCache ∧ s'.cyclicGlobals = s.cyclicGlobals := by
  induction h with
  | refl s => exact ⟨rfl, rfl⟩
  | step h =>
    cases h with
    | closeGlobals hid hvalue => exact absurd hvalue (hp _ hid)
    | _ => exact ⟨rfl, rfl⟩
  | trans _ _ ih ih' => exact ⟨ih'.1.trans ih.1, ih'.2.trans ih.2⟩
  | template _ _ ih => exact ih
  | global _ hid hvalue _ _ _ => exact absurd hvalue (hp _ hid)

end Traces

/-! ## Globals -/

/-- The global was found to be void or on a cycle. -/
def State.FoundVoid (s : State) (id : GlobalId) : Prop :=
  id ∈ s.cyclicGlobals ∨ ∃ v, (id, v) ∈ s.globalCache ∧ v.type.isVoid = true

/-- Some global was found to be void. -/
def State.VoidGlobal (p : Package) (s : State) : Prop := ∃ id, p.HasGlobal id ∧ s.FoundVoid id

/-- A run from `s` to `s'` has the stretch from `m` to `m'`, by itself or while a global is
computed or a template resolved. -/
inductive Stretch (p : Package) (o : Options) (m m' : State) : State → State → Prop
  | here {s s'} (hbefore : Trace p o true s m) (hafter : Trace p o true m' s') :
      Stretch p o m m' s s'
  | global {s s1 s2 s' n id v} {c : Context} (hbefore : Trace p o true s s1)
      (hrun : (computeGlobal (p.global id).decl (envAt p o n (c.openGlobal id))).run s1 = some (v, s2))
      (h : Stretch p o m m' s1 s2) (hafter : Trace p o true (s2.rememberGlobal id v) s') :
      Stretch p o m m' s s'
  | template {s s1 s2 s'} (hbefore : Trace p o true s s1) (hrun : TemplateRun p o true s1 s2)
      (h : Stretch p o m m' s1 s2) (hafter : Trace p o true { s2 with diags := s1.diags } s') :
      Stretch p o m m' s s'

theorem Stretch.extend {p : Package} {o : Options} {m m' s s' t t' : State}
    (h : Stretch p o m m' s s') (hbefore : Trace p o true t s) (hafter : Trace p o true s' t') :
    Stretch p o m m' t t' := by
  cases h with
  | here h h' => exact .here (hbefore.trans h) (h'.trans hafter)
  | global h hrun hinner h' => exact .global (hbefore.trans h) hrun hinner (h'.trans hafter)
  | template h hrun hinner h' => exact .template (hbefore.trans h) hrun hinner (h'.trans hafter)

/-- Why a global is found to be void, without an error, on the way from `s` to `s'`. -/
inductive GlobalRoot (p : Package) (o : Options) (s s' : State) : Prop
  /-- The global is computed, and its written type is void. -/
  | annotated {id t n c v u m m1 m'} (hid : p.HasGlobal id) (ht : (p.global id).decl.type = some t)
      (hrun : (computeGlobal (p.global id).decl (envAt p o n (Context.openGlobal c id))).run m =
        some (v, m')) (hv : v.type.isVoid = true)
      (hresolve : (resolve t (envAt p o n (Context.openGlobal c id))).run m = some (some u, m1))
      (hu : u.isVoid = true) (h : Stretch p o m (m'.rememberGlobal id v) s s')
  /-- The types of a template are resolved, which finds the first void global, and an
  error is dropped. -/
  | template {d m m'} (hrun : TemplateRun p o true m m') (hbefore : ¬m.VoidGlobal p)
      (hafter : m'.VoidGlobal p) (hd : d ∈ m'.diags.toList.drop m.diags.size)
      (herror : d.isError = true) (h : Stretch p o m { m' with diags := m.diags } s s')

theorem GlobalRoot.imp {p : Package} {o : Options} {s s' t t' : State} (h : GlobalRoot p o s s')
    (himp : ∀ {m m'}, Stretch p o m m' s s' → Stretch p o m m' t t') : GlobalRoot p o t t' := by
  cases h with
  | annotated hid ht hrun hv hresolve hu h => exact .annotated hid ht hrun hv hresolve hu (himp h)
  | template hrun hbefore hafter hd herror h =>
    exact .template hrun hbefore hafter hd herror (himp h)

section Globals

variable {p : Package} {o : Options} {b : Bool} {env : Env} {s s' : State}

end Globals

end Check

end JaneCheck
