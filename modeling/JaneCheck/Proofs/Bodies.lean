import JaneCheck.Check.Statement

/-!
# Judgements on the checks of bodies

The checks of statements go through branches, cases and blocks. A judgement that
the checks of the parts hand on to the check of a statement holds of all lists of
statements (`Composes.ofList`), so that each judgement says only what its parts do.
-/

namespace JaneCheck

namespace Syntax

/-- The blocks inside a statement, in order. -/
def Stmt.inner : Stmt → List (List Stmt)
  | .branch branches otherwise _ =>
    branches.map (·.body.stmts) ++ otherwise.toList.map (·.stmts)
  | .loop _ body _ => [body.stmts]
  | .select _ cases otherwise _ =>
    cases.map (·.body.stmts) ++ otherwise.toList.map (·.body.stmts)
  | .block body => [body.stmts]
  | _ => []

/-- The statement evaluates expressions and does nothing else. -/
def Stmt.evaluates : Stmt → Bool
  | .assign .. | .step .. | .expr _ | .ret .. => true
  | _ => false

/-- The statement has no block and declares no variable. -/
def Stmt.isPlain : Stmt → Bool
  | .declare .. | .declareMany .. | .branch .. | .loop .. | .select .. | .block _ => false
  | _ => true

end Syntax

namespace Check

open Syntax (Branch Case Stmt)

/-- What a judgement `J` needs to be one on lists of statements with `L`. -/
structure Composes (L : List Stmt → Prop) (J : Check Unit → Prop) : Prop where
  next {x ss} : L (x :: ss) → L ss
  enter {x ss stmts} : L (x :: ss) → stmts ∈ x.inner → L stmts
  pure : J (pure ())
  andThen {x y} : J x → J y → J (x >>= fun _ => y)
  atIndex {x} (i : Nat) : J x → J (inContext (.statement i) x)
  withBlock {x} (isUnsafe : Bool) : J x → J (withBlock isUnsafe fun _ => x)
  withCase {x} (isUnsafe : Bool) (size : Nat) (isFinal : Bool) :
    J x → J (withCase isUnsafe size isFinal x)
  plain {x ss} (label : Option String) : L (x :: ss) → x.isPlain = true → J (checkStmt x label)
  declare {name mutable constant type value span ss} :
    L (.declare name mutable constant type value span :: ss) →
      J (checkDeclare name mutable constant type value span)
  declareMany {names values span ss} : L (.declareMany names values span :: ss) →
    J (checkDeclareMany names values span)
  condition {branches otherwise span ss branch} : L (.branch branches otherwise span :: ss) →
    branch ∈ branches → J (checkCondition branch.cond .ifNeedsBool)
  loop {kind stmts isUnsafe bspan span ss} (label : Option String) :
    L (.loop kind ⟨stmts, isUnsafe, bspan⟩ span :: ss) → J (checkFrom stmts 0 none) →
      J (checkStmt (.loop kind ⟨stmts, isUnsafe, bspan⟩ span) label)
  /-- With a subject against which the cases are checked. -/
  select {subject cases otherwise span ss} {f : Option Value → Check Unit} (label : Option String) :
    L (.select subject cases otherwise span :: ss) →
    (∀ v, (∀ case ∈ cases ++ otherwise.toList, J (checkCaseExprs subject.isSome v case.exprs)) →
      J (f v)) →
    J (subject.bindM (evalChecked · none) >>= fun v => withBreakable label false (f v))

section Composes

variable {L : List Stmt → Prop} {J : Check Unit → Prop}

mutual

theorem Composes.ofList (h : Composes L J) (stmts : List Stmt) (i : Nat) (label : Option String)
    (hL : L stmts) : J (checkFrom stmts i label) := by
  match stmts with
  | [] =>
    exact h.pure
  | x :: rest =>
    exact h.andThen (h.atIndex i (h.ofStmt x label hL)) (h.ofList rest (i + 1) _ (h.next hL))

theorem Composes.ofStmt (h : Composes L J) {ss : List Stmt} (x : Stmt) (label : Option String)
    (hL : L (x :: ss)) : J (checkStmt x label) := by
  match x with
  | .declare name mutable constant type value span =>
    exact h.declare hL
  | .declareMany names values span =>
    exact h.declareMany hL
  | .branch branches none span =>
    exact h.ofBranches branches (fun _ => h.condition hL) fun b hb =>
      h.enter hL (by simpa [Stmt.inner] using ⟨b, hb, rfl⟩)
  | .branch branches (some ⟨stmts, isUnsafe, bspan⟩) span =>
    refine h.andThen (h.ofBranches branches (fun _ => h.condition hL) fun b hb => ?_)
      (h.withBlock isUnsafe (h.ofList stmts 0 none (h.enter hL (by simp [Stmt.inner]))))
    exact h.enter hL (by simpa [Stmt.inner] using .inl ⟨b, hb, rfl⟩)
  | .loop kind ⟨stmts, isUnsafe, bspan⟩ span =>
    exact h.loop label hL (h.ofList stmts 0 none (h.enter hL (by simp [Stmt.inner])))
  | .select subject cases none span =>
    refine h.select label hL fun v hv => h.ofCases _ v _ cases (fun x hx => hv x (by simp [hx]))
      fun x hx => ?_
    exact h.enter hL (by simpa [Stmt.inner] using ⟨x, hx, rfl⟩)
  | .select subject cases (some ⟨exprs, ⟨stmts, isUnsafe, bspan⟩, cspan⟩) span =>
    refine h.select label hL fun v hv => ?_
    have hlast := hv ⟨exprs, ⟨stmts, isUnsafe, bspan⟩, cspan⟩ (by simp)
    refine h.andThen (h.ofCases _ v _ cases (fun x hx => hv x (by simp [hx])) fun x hx => ?_)
      (h.andThen hlast (h.withCase _ _ _ (h.ofList stmts 0 none ?_)))
    · exact h.enter hL (by simpa [Stmt.inner] using .inl ⟨x, hx, rfl⟩)
    · exact h.enter hL (by simp [Stmt.inner])
  | .block ⟨stmts, isUnsafe, bspan⟩ =>
    exact h.withBlock isUnsafe (h.ofList stmts 0 none (h.enter hL (by simp [Stmt.inner])))
  | .assign .. | .step .. | .expr _ | .ret .. | .leave .. | .again .. | .goto .. | .label ..
  | .fallthrough _ | .typeAlias _ => exact h.plain label hL rfl

theorem Composes.ofBranches (h : Composes L J) (branches : List (Branch Stmt))
    (hconds : ∀ b ∈ branches, J (checkCondition b.cond .ifNeedsBool))
    (hL : ∀ b ∈ branches, L b.body.stmts) : J (checkBranches branches) := by
  match branches with
  | [] =>
    exact h.pure
  | ⟨cond, ⟨stmts, isUnsafe, bspan⟩⟩ :: rest =>
    obtain ⟨hcond, hconds⟩ := List.forall_mem_cons.mp hconds
    obtain ⟨hbody, hL⟩ := List.forall_mem_cons.mp hL
    refine h.andThen hcond (h.andThen (h.withBlock _ (h.ofList stmts 0 none hbody)) ?_)
    exact h.ofBranches rest hconds hL

theorem Composes.ofCases (h : Composes L J) (hasSubject : Bool) (v : Option Value)
    (hasDefault : Bool) (cases : List (Case Stmt))
    (hexprs : ∀ x ∈ cases, J (checkCaseExprs hasSubject v x.exprs))
    (hL : ∀ x ∈ cases, L x.body.stmts) : J (checkCases hasSubject v hasDefault cases) := by
  match cases with
  | [] =>
    exact h.pure
  | ⟨exprs, ⟨stmts, isUnsafe, bspan⟩, cspan⟩ :: rest =>
    obtain ⟨hexpr, hexprs⟩ := List.forall_mem_cons.mp hexprs
    obtain ⟨hbody, hL⟩ := List.forall_mem_cons.mp hL
    refine h.andThen hexpr (h.andThen (h.withCase _ _ _ (h.ofList stmts 0 none hbody)) ?_)
    exact h.ofCases hasSubject v hasDefault rest hexprs hL

end

end Composes

end Check

end JaneCheck
