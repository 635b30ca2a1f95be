import JaneCheck.Proofs.Machine
import JaneCheck.Proofs.Regimes.Moves

/-!
# Scopes are left as they were entered

A check puts back what it took out of the context of the machine (`exec_eq`).
Beyond that, a type or an expression leaves the scopes, the labels and the gotos as
they are, apart from marks of what was used. Statements add to their block and open
blocks below it, and leave every other block as it is; so the way up from a block is
the same before and after.
-/

namespace JaneCheck

open Demand (covered_lax)
open Syntax (Stmt)

/-- Old blocks have the same blocks around them. -/
theorem Scopes.Grows.ancestors {home : Option BlockId} {s s' : Scopes} (h : s.Grows home s')
    {b : BlockId} (hb : b < s.blocks.size) : s'.ancestors b = s.ancestors b := by
  have hparent : ∀ b, b < s.blocks.size →
      s'.blocks[b]?.bind (·.parent) = s.blocks[b]?.bind (·.parent) := by
    intro b hb
    have hblock := Array.getElem?_eq_getElem hb
    obtain ⟨block, hblock', hext, -⟩ := h.kept hblock
    rw [hblock', hblock]
    exact hext.parent
  fun_induction Scopes.ancestors s b with
  | case1 b q hq hlt ih =>
    rw [Scopes.ancestors, hparent b hb, hq]
    simp only [hlt, ↓reduceIte, ih (Nat.lt_trans hlt hb)]
  | case2 b q hq hlt =>
    rw [Scopes.ancestors, hparent b hb, hq]
    simp only [hlt, ↓reduceIte]
  | case3 b hnone =>
    rw [Scopes.ancestors, hparent b hb, hnone]

namespace Check

variable {p : Package} {o : Options}

theorem confining_checkStmts (stmts : List Stmt) : (confining p o).Keeps (checkStmts stmts) :=
  (composes_keeps trivial trivial trivial).ofList stmts 0 none fun x _ => within_moving x

/-! ## What a check hands back -/

/-- From `m` to `m'` all that an excursion takes out was put back, and no diagnostic
was lost. The function context has the statements to leave and the match case. -/
structure Restores (m m' : Machine) : Prop where
  block : m'.block = m.block
  bindings : m'.bindings = m.bindings
  templates : m'.templates = m.templates
  aliasPath : m'.aliasPath = m.aliasPath
  globalPath : m'.globalPath = m.globalPath
  func : m'.func = m.func
  diags : m.diags.toList <+: m'.diags.toList

section Restoring

variable {n : Nat} {m m' : Machine}

theorem restores_of_exec {x : Check α} {a : α} (h : x.exec (toolsAt p o n) m = some (a, m')) :
    Restores m m' ∧ m'.index = m.index ∧
      run p o n m.toContext x m.toState = some (a, m'.toState) := by
  rw [exec_toolsAt] at h
  obtain ⟨⟨b, s'⟩, hrun, he⟩ := Option.map_eq_some_iff.mp h
  cases he
  exact ⟨⟨rfl, rfl, rfl, rfl, rfl, rfl, ((x (envAt p o n m.toContext)).le hrun).diags⟩, rfl, hrun⟩

end Restoring

/-- A type or an expression hands back the context and leaves the scopes, labels
and gotos as they are. Statements hand back all but the place in the block, and leave
every block but the current one as it is; the blocks that they opened are below it. -/
theorem scopes_restored (p : Package) (o : Options) (n : Nat) (m : Machine) :
    (∀ t r m', (resolve t).exec (toolsAt p o n) m = some (r, m') →
      Restores m m' ∧ m'.index = m.index ∧ m.toState.Beside m'.toState) ∧
    (∀ e hint v m', (evalAny e hint).exec (toolsAt p o n) m = some (v, m') →
      Restores m m' ∧ m'.index = m.index ∧ m.toState.Beside m'.toState) ∧
    (∀ e hint v m', (eval e hint).exec (toolsAt p o n) m = some (v, m') →
      Restores m m' ∧ m'.index = m.index ∧ m.toState.Beside m'.toState) ∧
    ∀ stmts m', (checkStmts stmts).exec (toolsAt p o n) m = some ((), m') →
      Restores m m' ∧ m.scopes.Grows m.block m'.scopes ∧
        ∀ b < m.scopes.blocks.size, m'.scopes.ancestors b = m.scopes.ancestors b := by
  refine ⟨fun t r m' h => ?_, fun e hint v m' h => ?_, fun e hint v m' h => ?_,
    fun stmts m' h => ?_⟩
  · obtain ⟨hback, hindex, hrun⟩ := restores_of_exec h
    exact ⟨hback, hindex, beside_of_asks (.resolve trivial) hrun⟩
  · obtain ⟨hback, hindex, hrun⟩ := restores_of_exec h
    exact ⟨hback, hindex, beside_of_asks (.evalAny trivial (covered_lax hint)) hrun⟩
  · obtain ⟨hback, hindex, hrun⟩ := restores_of_exec h
    exact ⟨hback, hindex, beside_of_asks (asks_eval trivial (covered_lax hint)) hrun⟩
  · obtain ⟨hback, -, hrun⟩ := restores_of_exec h
    have hgrows := (confining_checkStmts stmts n m.toContext m.toState trivial hrun trivial).1.grows.toGrows
    exact ⟨hback, hgrows, fun b hb => hgrows.ancestors hb⟩

/-- The block of a function, with nothing in it. -/
def freshBody : State := { scopes := ⟨#[{ parent := none, index := 0, isUnsafe := false }], #[]⟩ }

/-- The block of a function, inside a loop with a label. -/
def inOuterLoop : Context := { block := some 0, func := { breakables := [⟨some "outer", true⟩] } }

/-- A loop that is left at once; its body declares a variable that nothing uses. -/
def loopOnce : List Stmt :=
  [.loop .forever ⟨[
    .declare ⟨"x", default⟩ false false none (some (.literal (.int 1) default)) default,
    .leave none default], false, default⟩ default]

/-- After the loop the machine has the outer loop alone, and the variable has
stayed in the block of the inner one. -/
theorem scopes_restored_loopOnce : ∃ m',
    (checkStmts loopOnce).exec (toolsAt .empty {} 3) ⟨inOuterLoop, freshBody⟩ = some ((), m') ∧
    m'.diags.size = 1 ∧ Restores ⟨inOuterLoop, freshBody⟩ m' ∧
    freshBody.scopes.Grows (some 0) m'.scopes := by
  obtain ⟨-, -, -, hstmts⟩ := scopes_restored .empty {} 3 ⟨inOuterLoop, freshBody⟩
  have heval : (((checkStmts loopOnce).exec (toolsAt .empty {} 3) ⟨inOuterLoop, freshBody⟩).any
      fun r => r.2.diags.size == 1) = true := by
    decide +kernel
  obtain ⟨⟨_, m'⟩, hrun, hsize⟩ := (Option.any_eq_true _ _).mp heval
  have hloop := hstmts loopOnce m' hrun
  exact ⟨m', hrun, by simpa using hsize, hloop.1, hloop.2.1⟩

end Check

end JaneCheck
