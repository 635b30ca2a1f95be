import JaneCheck.Proofs.Regimes.Definitions

/-!
# All stays covered

What a check asks for is covered, so it keeps all covered too, whatever the level at
which it runs. Statements declare variables with the types that were asked for, and a
receiver has the type of the instance that is checked. So covering is a regime, under
which every check of a definition runs.
-/

namespace JaneCheck.Demand

open Check

variable {D : Demand}

/-! ## Levels -/

section Parts

open Syntax (Arg Expr TypeExpr)

variable {P : Span → Prop} {e : Expr} {t : TypeExpr}

/-! The parts of a tree lie where the tree does. -/

theorem within_typeParts (h : t.Within P) : ∀ x ∈ typeParts t, x.Within P := by
  cases h <;> simp_all [typeParts, Part.Within, or_imp, forall_and]

theorem within_spreadOperand (h : e.Within P) : (spreadOperand e).Within P := by
  cases h with
  | spread _ he => exact he
  | _ => constructor <;> assumption

theorem within_calleeParts (h : e.Within P) : ∀ x ∈ calleeParts e, x.Within P := by
  have hself : Part.Within P (.expr e) := h
  cases h <;> simp_all [calleeParts, Part.Within]

theorem within_argParts {args : List Arg} (h : ∀ a ∈ args, a.value.Within P) :
    ∀ x ∈ argParts args, x.Within P := by
  intro x hx
  obtain ⟨a, ha, hx⟩ := List.mem_flatMap.mp hx
  rcases List.mem_pair.mp hx with rfl | rfl
  · exact h a ha
  · exact within_spreadOperand (h a ha)

theorem within_exprParts (h : e.Within P) : ∀ x ∈ exprParts e, x.Within P := by
  cases h with
  | call _ hf ha _ =>
    exact List.forall_mem_cons.mpr ⟨trivial,
      List.forall_mem_append.mpr ⟨within_calleeParts hf, within_argParts ha⟩⟩
  | structLit _ hgs ha _ _ =>
    exact List.forall_mem_cons.mpr ⟨trivial, List.forall_mem_cons.mpr ⟨trivial,
      List.forall_mem_append.mpr ⟨List.forall_mem_map.mpr hgs, within_argParts ha⟩⟩⟩
  | _ => simp_all [exprParts, Part.Within]

end Parts

/-- Every level keeps all covered, by induction on the number of levels below. -/
theorem covered_levels {p : Package} (options : Options) (hp : D.CoveredPackage p) (n : Nat)
    {c : Context} (hc : D.CoveredContext c) :
    D.CoveredEnv ⟨p, options, c, resolveAt p options n, evalAt p options n⟩ := by
  induction n generalizing c with
  | zero => exact ⟨hp, hc, nofun, nofun⟩
  | succ n ih =>
    refine ⟨hp, hc, fun {c' t} hc' ht => ?_, fun {c' e hint} hc' he hh => ?_⟩
    · exact (asks_resolveStep (allows_within hp) (within_typeParts ht) ht).sound
        (ih hc').resolveIn (ih hc').evalIn hc'
    · exact (asks_evalStep (allows_within hp) (within_exprParts he) he hh).sound
        (ih hc').resolveIn (ih hc').evalIn hc'

/-! ## The regime -/

section Covering

variable {p : Package} {s : State} {b : BlockId}

theorem CoveredState.report {d : Diagnostic} (hs : D.CoveredState s) (hd : D.span d.span) :
    D.CoveredState { s with diags := s.diags.push d } :=
  { hs with diags := forall_mem_push hs.diags hd }

theorem CoveredState.declare {id : VarId} {v : Var} {scopes : Scopes} (hs : D.CoveredState s)
    (h : s.scopes.declare b v = .ok (id, scopes)) (hv : Covered.By D v) :
    D.CoveredState { s with scopes } := by
  unfold Scopes.declare at h
  split at h
  · cases h
  · cases h
    exact { hs with
      vars := forall_mem_push hs.vars hv
      aliases := forall_mem_modify hs.aliases fun _ h => h }

/-- All is covered, and stays so as long as the demand has what is asked for. -/
def covering (hp : D.CoveredPackage p) (o : Options) : Regime p o where
  toRealm := .within D hp
  guard := .grants D
  starts c s := D.CoveredContext c ∧ D.CoveredState s
  course _ _ s' := D.CoveredState s'
  refl hs := hs.2
  trans _ h _ _ := h
  next hs h := ⟨hs.1, h⟩
  declares := True
  labels := True
  jumps := True
  admits h := h
  allows c := allows_within hp
  known hs := hs.2
  asked h hs _ _ hrun hg :=
    h.sound (covered_levels o hp _ hs.1).resolveIn (covered_levels o hp _ hs.1).evalIn
      hs.1 hs.2 hrun hg
  quiet {n c s id field} hfield hs := by
    have henv := covered_levels o hp n hs.1
    have hasks : Asks (.within D hp) c (resolveOrVoid field.type) :=
      asks_resolveOrVoid ((Realm.within D hp).within_fields id field hfield).type
    exact fun _ _ hrun hg => (hasks.sound henv.resolveIn henv.evalIn hs.1).quietly hs.2 hrun hg
  report hs _ hspan := hs.2.report hspan
  mark hs _ hlabels hgotos := { hs.2 with labels := hlabels, gotos := hgotos }
  record hs _ := { hs.2 with aliases := forall_mem_modify hs.2.aliases fun _ h => h }
  addAlias hs _ _ ha :=
    { hs.2 with aliases := forall_mem_modify hs.2.aliases fun _ h => covered_cons ha h }
  declare _ hs _ h hv := hs.2.declare h hv
  within _ _ hc hs := ⟨⟨hc hs.1, hs.2⟩, fun _ h => h⟩
  enter _ hs :=
    ⟨⟨⟨hs.1.bindings, hs.1.ret⟩, { hs.2 with aliases := forall_mem_push hs.2.aliases covered_nil }⟩,
      fun _ h => h⟩

end Covering

end JaneCheck.Demand
