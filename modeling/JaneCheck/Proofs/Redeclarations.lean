import JaneCheck.Proofs.JumpScopes

/-!
# Redeclarations

In all scopes that checks of statements and of bodies reach, neither two variables nor two
aliases of a block have one name, and an alias is not given the name of a variable that its
block has (`names_in_blocks`). Who tries is told that the name is taken. A variable may be
given the name of an alias, so a block can have both (`variable_named_as_alias`).
-/

namespace JaneCheck.Check

open Demand (covers_lax)
open Syntax (Stmt TypeAlias)

/-- The state after a name was refused. -/
def State.refused (s : State) (name : String) (span : Span) : State :=
  { s with diags := s.diags.push ⟨.nameTaken name, span⟩ }

variable {p : Package} {o : Options} {n : Nat} {c : Context} {s : State} {b : BlockId}

theorem confining_checkBody (id : FuncId) (ownerTypes types : List Ty) :
    (confining p o).Keeps (checkBody id ownerTypes types) :=
  keeps_checkBody trivial trivial trivial (Syntax.Function.within_of_forall (fun _ => trivial) _)
    (fun _ _ => covers_lax _) (fun _ _ => covers_lax _) fun _ _ => nofun

theorem run_declare {v : Var} (hs : s.scopes.Distinct) (hb : c.block = some b)
    (hopened : b < s.scopes.blocks.size) (hname : v.name ≠ "_") :
    ∃ s', run p o n c (declare v) s = some ((), s') ∧
      if v.name ∈ s.scopes.varNames b then s' = s.refused v.name v.span
      else s'.diags = s.diags ∧ s'.scopes.varNames b = v.name :: s.scopes.varNames b := by
  obtain ⟨_, s', hrun, hdeclared⟩ : Gives (envAt p o n c) s (declare v) _ := gives_declare v
  refine ⟨s', hrun, ?_⟩
  cases hdeclared with
  | skipped h => simp [hname, envAt, hb] at h
  | taken hb' h =>
    cases hb.symm.trans hb'
    rw [if_pos h]
    rfl
  | added hb' h =>
    cases hb.symm.trans hb'
    rw [if_neg (Scopes.name_not_mem_of_declare h)]
    exact ⟨rfl, by simp [Scopes.varNames_declare h hs, hopened]⟩

theorem run_checkLocalAlias {a : TypeAlias} (hb : c.block = some b)
    (h : a.name.name ∈ s.scopes.aliasNames b ∨ a.name.name ∈ s.scopes.varNames b) :
    run p o n c (checkLocalAlias a) s = some ((), s.refused a.name.name a.name.span) := by
  have htaken : ((s.scopes.localAlias? b a.name.name).isSome ||
      (s.scopes.local? b a.name.name).isSome) = true := by
    simpa [Option.isSome_iff_ne_none, Scopes.localAlias?_eq_none_iff, Scopes.local?_eq_none_iff]
      using h
  have hgives : Gives (envAt p o n c) s (checkLocalAlias a) fun _ s' =>
      s' = s.refused a.name.name a.name.span := by
    refine .context ?_
    split
    next b' hb' =>
      cases hb.symm.trans hb'
      refine .state ?_
      rw [if_pos htaken]
      exact ⟨(), _, rfl, rfl⟩
    next hnone => exact (hnone b hb).elim
  obtain ⟨⟨⟩, s', hrun, rfl⟩ := hgives
  exact hrun

/-- Checks keep the names of the variables of a block distinct, and those of its aliases, and
add no alias with the name of a variable. A variable that would be the second of its name in
the block is refused, and so is an alias with a name that the block has. -/
theorem names_in_blocks (p : Package) (o : Options) (n : Nat) (c : Context) (s : State)
    (hs : s.scopes.Distinct) :
    (∀ stmts s', run p o n c (checkStmts stmts) s = some ((), s') →
      s'.scopes.Distinct ∧ s.scopes.AddsNames s'.scopes) ∧
    (∀ id ownerTypes types s', run p o n c (checkBody id ownerTypes types) s = some ((), s') →
      s'.scopes.Distinct ∧ s.scopes.AddsNames s'.scopes) ∧
    ∀ b, c.block = some b → b < s.scopes.blocks.size →
      (∀ v : Var, v.name ≠ "_" → ∃ s', run p o n c (declare v) s = some ((), s') ∧
        if v.name ∈ s.scopes.varNames b then s' = s.refused v.name v.span
        else s'.diags = s.diags ∧ s'.scopes.varNames b = v.name :: s.scopes.varNames b) ∧
      ∀ a : TypeAlias, a.name.name ∈ s.scopes.aliasNames b ∨ a.name.name ∈ s.scopes.varNames b →
        run p o n c (checkLocalAlias a) s = some ((), s.refused a.name.name a.name.span) := by
  refine ⟨fun stmts s' h => ?_, fun id ownerTypes types s' h => ?_, fun b hb hopened => ⟨?_, ?_⟩⟩
  · exact (confining_checkStmts stmts n c s trivial h trivial).1.grows.names hs
  · exact (confining_checkBody id ownerTypes types n c s trivial h trivial).1.grows.names hs
  · exact fun v hname => run_declare hs hb hopened hname
  · exact fun a h => run_checkLocalAlias hb h

/-! ## Twice the name `x` -/

def declareX : Stmt :=
  .declare ⟨"x", default⟩ false false none (some (.literal (.int 1) default)) default

/-- The alias `x` of the type of functions without parameters. -/
def aliasX : Stmt := .typeAlias ⟨⟨"x", default⟩, .function [] false none default, default⟩

theorem distinct_freshBody : freshBody.scopes.Distinct := by
  refine (Scopes.sameNames_enter {} none 0 false).distinct ⟨fun b v hv => ?_, fun b => ?_, fun b => ?_⟩
  all_goals simp_all [Scopes.varIds, Scopes.varNames, Scopes.aliasNames]

/-- The second variable `x` is refused, and so is an alias after it. -/
theorem names_in_blocks_declareX : ∃ s',
    run .empty {} 3 { block := some 0 } (checkStmts [declareX, declareX, aliasX]) freshBody =
      some ((), s') ∧ s'.diags.size = 2 ∧ s'.scopes.Distinct ∧
    freshBody.scopes.AddsNames s'.scopes := by
  have hcheck := (names_in_blocks .empty {} 3 { block := some 0 } freshBody distinct_freshBody).1
  have heval : ((run .empty {} 3 { block := some 0 } (checkStmts [declareX, declareX, aliasX])
      freshBody).any fun r => r.2.diags.size == 2) = true := by
    decide +kernel
  obtain ⟨⟨_, s'⟩, hrun, hsize⟩ := (Option.any_eq_true _ _).mp heval
  exact ⟨s', hrun, by simpa using hsize, hcheck _ s' hrun⟩

/-- A variable is given the name of an alias of its block, and nothing is reported. -/
theorem variable_named_as_alias : ∃ s',
    run .empty {} 3 { block := some 0 } (checkStmts [aliasX, declareX]) freshBody = some ((), s') ∧
    s'.diags.size = 0 ∧ s'.scopes.aliasNames 0 = ["x"] ∧ s'.scopes.varNames 0 = ["x"] := by
  have heval : ((run .empty {} 3 { block := some 0 } (checkStmts [aliasX, declareX])
      freshBody).any fun r => r.2.diags.size == 0 && r.2.scopes.aliasNames 0 == ["x"] &&
        r.2.scopes.varNames 0 == ["x"]) = true := by
    decide +kernel
  obtain ⟨⟨_, s'⟩, hrun, hsame⟩ := (Option.any_eq_true _ _).mp heval
  obtain ⟨hsize, hvars⟩ := Bool.and_eq_true_iff.mp hsame
  obtain ⟨hsize, haliases⟩ := Bool.and_eq_true_iff.mp hsize
  exact ⟨s', hrun, by simpa using hsize, by simpa using haliases, by simpa using hvars⟩

end JaneCheck.Check
