import JaneCheck.Package.Phases
import JaneCheck.Proofs.Runs

/-!
# Machines

A check that runs on a machine changes the context of the machine: an excursion takes
parts of it out, and whatever the check does there happens in between. `exec_eq` is by
induction on the check: at the end the context is the one of the start, and all else is
as if the context had only been read. `serves_toolsAt` goes on to the answers that a
check asks for, level by level.
-/

namespace JaneCheck

namespace Check

open Syntax (Expr TypeExpr)

/-- The end of a step on a machine with the context `c`. -/
def Step.onMachine (x : Step α) (c : Context) (s : State) : Option (α × Machine) :=
  (x.run s).map fun (a, s') => (a, ⟨c, s'⟩)

/-- The tools answer as the environment does and leave every context as it is. -/
structure Serves (tools : Tools) (env : Env) : Prop where
  package : tools.package = env.package
  options : tools.options = env.options
  resolve : ∀ t c s, tools.resolve t ⟨c, s⟩ = (env.resolveIn c t).onMachine c s
  eval : ∀ e hint c s, tools.eval e hint ⟨c, s⟩ = (env.evalIn c e hint).onMachine c s

/-- What was there before is left when the rest is cut off. -/
theorem take_size_of_prefix {as bs : Array α} (h : as.toList <+: bs.toList) : bs.take as.size = as := by
  apply Array.toList_inj.mp
  rw [List.prefix_iff_eq_take.mp h]
  simp

/-- A check leaves the context of the machine as it was. -/
theorem exec_eq {tools : Tools} (x : Check α) {env : Env} (h : Serves tools env) (s : State) :
    x.exec tools ⟨env.context, s⟩ = (x env).onMachine env.context s := by
  induction x generalizing env s with
  | give a | update f le => rfl
  | look f => simp [exec, h.package, h.options, Step.onMachine, reader]
  | andThen x f ihx ihf =>
    rw [exec, ihx h]
    cases hx : (x env).run s with
    | none => simp [Step.onMachine, reader, Step.bind, hx]
    | some r =>
      simp only [Step.onMachine, hx, Option.map_some, reader, Step.bind]
      exact ihf r.1 h r.2
  | inContext e x ih =>
    -- the context is put back from the one in which the inner check ends
    have hinner : Serves tools { env with context := e.enter env.context } := { h with }
    rw [exec, ih hinner]
    cases hx : (x { env with context := e.enter env.context }).run s with
    | none => simp [Step.onMachine, reader, hx]
    | some r => simp [Step.onMachine, reader, hx, e.back]
  | quietly x ih =>
    rw [exec, ih h]
    cases hx : (x env).run s with
    | none => simp [Step.onMachine, reader, hx]
    | some r => simp [Step.onMachine, reader, hx, take_size_of_prefix ((x env).le hx).diags]
  | resolve t => exact h.resolve t _ s
  | evalAny e hint => exact h.eval e hint _ s

variable {p : Package} {o : Options} {n : Nat} {c : Context}

theorem serves_toolsAt (n : Nat) (c : Context) : Serves (toolsAt p o n) (envAt p o n c) := by
  induction n generalizing c with
  | zero => exact ⟨rfl, rfl, fun _ _ _ => rfl, fun _ _ _ _ => rfl⟩
  | succ n ih =>
    exact ⟨rfl, rfl, fun t c s => exec_eq (resolveStep t) (ih c) s,
      fun e hint c s => exec_eq (evalStep e hint) (ih c) s⟩

theorem exec_toolsAt (x : Check α) (s : State) :
    x.exec (toolsAt p o n) ⟨c, s⟩ = (run p o n c x s).map fun (a, s') => (a, ⟨c, s'⟩) :=
  exec_eq x (serves_toolsAt n c) s

/-- A check on a new machine ends as it does when its context is only read. -/
theorem start_eq (x : Check α) : start p o n c x = run p o n c x {} := by
  rw [start, exec_toolsAt, Option.map_map]
  exact Option.map_id'

end Check

namespace Package

variable {setup : Setup} {p : Package} {c : Check.Context} {x : Check α} {a : α} {found : Findings}
  {s : Check.State}

/-- A check of a package is a run from the fresh state. -/
theorem run_of_find (h : p.find setup c x = some (a, found)) :
    ∃ s, (x (Check.envAt p setup.options setup.depth c)).run {} = some (a, s) ∧ found = .ofState s := by
  obtain ⟨⟨b, s⟩, hrun, he⟩ := Option.bind_eq_some_iff.mp h
  cases he
  exact ⟨s, (Check.start_eq x).symm.trans hrun, rfl⟩

theorem find_of_run (h : Check.run p setup.options setup.depth c x {} = some (a, s)) :
    p.find setup c x = some (a, .ofState s) :=
  Option.bind_eq_some_iff.mpr ⟨(a, s), (Check.start_eq x).trans h, rfl⟩

end Package

end JaneCheck
