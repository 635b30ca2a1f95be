import JaneCheck.Proofs.Placement
import JaneCheck.Proofs.Returns

/-!
# Missing returns are missed

A body of which the structure does not show that it returns has an execution
that reaches its end, unless it has a `goto` or an endless loop. The execution
is found along the body: loops are passed by, and where a statement cannot be
passed by, it is entered in a block that need not return.

`Open` is what holds on the way. Control that completes a list gets through the
frames around it (`Outward`), and a list that does not return is not left by a
`fallthrough` either.
-/

namespace JaneCheck.Flow

open Check (labelName?)
open Syntax (Branch Case LoopKind Stmt)

variable {body : List Stmt}

/-! ## Getting out -/

/-- Some execution from the point reaches the end of the body. -/
def Finishes (body : List Stmt) (p : Point) : Prop := ∃ q, Reaches body p q ∧ q.AtEnd

theorem Finishes.step {p q : Point} (hstep : Step body p q) (h : Finishes body q) :
    Finishes body p := by
  obtain ⟨r, hr, hend⟩ := h
  exact ⟨r, .head hstep hr, hend⟩

/-- Control that completes the statements inside gets through the frames. There is no loop
among them. -/
inductive Outward (body : List Stmt) : List Frame → Prop
  | nil : Outward body []
  | rest {ss fs} (h : Finishes body ⟨none, ss, fs⟩) (hfs : Outward body fs) :
      Outward body (.rest ss :: fs)
  | select {l later fs} (hfs : Outward body fs) : Outward body (.select l later :: fs)

namespace Outward

variable {fs fs' : List Frame}

theorem finishes (l : Option String) (h : Outward body fs) : Finishes body ⟨l, [], fs⟩ := by
  induction h generalizing l with
  | nil => exact ⟨_, .refl, rfl, rfl⟩
  | rest h _ _ => exact .step .resume h
  | select _ ih => exact .step .close (ih none)

theorem suffix (inner : List Frame) (h : Outward body (inner ++ fs)) : Outward body fs := by
  induction inner with
  | nil => exact h
  | cons f inner ih =>
    apply ih
    cases h with
    | rest _ h => exact h
    | select h => exact h

theorem not_isLoop (h : Outward body fs) : ∀ f ∈ fs, f.isLoop = false := by
  induction h with
  | nil => nofun
  | rest _ _ ih => exact List.forall_mem_cons.mpr ⟨rfl, ih⟩
  | select _ ih => exact List.forall_mem_cons.mpr ⟨rfl, ih⟩

end Outward

variable {fs : List Frame} {l : Option String} {ss : List Stmt} {span : Span}

theorem exists_innermost {f : Frame → Bool} (h : fs.any f = true) :
    ∃ frame inner fs', Frame.innermost f fs = some (frame, fs') ∧ fs = inner ++ frame :: fs' := by
  induction fs with
  | nil => cases h
  | cons g gs ih =>
    by_cases hg : f g = true
    · exact ⟨g, [], gs, if_pos hg, rfl⟩
    · obtain ⟨frame, inner, fs', he, hfs⟩ := ih (by simpa [hg] using h)
      exact ⟨frame, g :: inner, fs', by rw [Frame.innermost, if_neg hg, he], by rw [hfs]; rfl⟩

/-! ## Blocks that need not return -/

theorem exists_branch_of_not_returns {branches : List (Branch Stmt)}
    (h : branchesReturn branches = false) :
    ∃ b ∈ branches, stmtsReturn b.body.stmts = false := by
  induction branches with
  | nil => cases h
  | cons b branches ih =>
    rw [branchesReturn, Bool.and_eq_false_iff] at h
    rcases h with h | h
    · exact ⟨b, List.mem_cons_self, h⟩
    · obtain ⟨b', hb', h'⟩ := ih h
      exact ⟨b', List.mem_cons_of_mem b hb', h'⟩

/-- A match that does not return has a case that does not and that is not left for the next one. -/
theorem exists_case_of_not_returns {x : Option Syntax.Expr} {cases : List (Case Stmt)}
    {d : Case Stmt} (h : stmtReturns (.select x cases (some d) span) = false) :
    ∃ before b later, caseBodies cases (some d) = before ++ b :: later ∧ stmtsReturn b = false ∧
      (later ≠ [] → fallsThrough b = false) := by
  rw [stmtReturns, Bool.and_eq_false_iff] at h
  rcases h with h | h
  · refine ⟨cases.map (·.body.stmts), d.body.stmts, [], by simp [caseBodies], h, by simp⟩
  · induction cases with
    | nil => cases h
    | cons case cases ih =>
      rw [casesReturn, Bool.and_eq_false_iff, Bool.or_eq_false_iff] at h
      rcases h with ⟨hreturns, hfalls⟩ | h
      · exact ⟨[], case.body.stmts, caseBodies cases (some d), by simp [caseBodies], hreturns,
          fun _ => hfalls⟩
      · obtain ⟨before, b, later, he, hb⟩ := ih h
        exact ⟨case.body.stmts :: before, b, later, by simpa [caseBodies] using he, hb⟩

/-! ## The way to the end -/

/-- Control at the point can get to the end of the body. -/
structure Open (body : List Stmt) (p : Point) : Prop where
  place : Place body p
  returns : stmtsReturn p.stmts = false
  /-- A case that another one follows does not go on into it. -/
  falls : ∀ l later fs, p.frames = .select l later :: fs → later ≠ [] →
    fallsThrough p.stmts = false
  outward : Outward body p.frames

theorem Open.next {s : Stmt} (h : Open body ⟨l, s :: ss, fs⟩) :
    Open body ⟨labelName? s, ss, fs⟩ where
  place := .next h.place
  returns := by
    have hreturns := h.returns
    rw [stmtsReturn, Bool.or_eq_false_iff] at hreturns
    exact hreturns.2
  falls n later fs' he hlater := by
    have hfalls : fallsThrough (s :: ss) = false := h.falls n later fs' he hlater
    cases ss with
    | nil => rfl
    | cons t ts => rwa [fallsThrough, List.getLast?_cons_cons] at hfalls
  outward := h.outward

/-- There is no loop around the point to `continue` with. -/
theorem Open.not_again {label : Option Syntax.Ident}
    (h : Open body ⟨l, .again label span :: ss, fs⟩) :
    Point.wellPlaced ⟨l, .again label span :: ss, fs⟩ = false := by
  have hloops : ∀ f ∈ fs, f.isLoop = false := h.outward.not_isLoop
  cases label with
  | none => exact List.any_eq_false.mpr fun f hf => Bool.eq_false_iff.mp (hloops f hf)
  | some label =>
    change (fs.find? (·.takesBreak (some label.name))).any (·.isLoop) = false
    cases hfound : fs.find? (·.takesBreak (some label.name)) with
    | none => rfl
    | some f => exact hloops f (List.mem_of_find?_eq_some hfound)

/-- There is no case after the point to fall into. -/
theorem Open.not_fallthrough (h : Open body ⟨l, .fallthrough span :: ss, fs⟩) :
    Point.wellPlaced ⟨l, .fallthrough span :: ss, fs⟩ = false := by
  rw [Point.wellPlaced, Bool.and_eq_false_iff]
  cases ss with
  | cons s ss => exact .inl rfl
  | nil =>
    refine .inr ?_
    cases fs with
    | nil => rfl
    | cons f fs =>
      cases f with
      | rest | loop => rfl
      | select n later =>
        cases later with
        | nil => rfl
        | cons b later => exact absurd (h.falls n _ fs rfl (List.cons_ne_nil b later)) nofun

/-- A block of the first statement that need not return is open, and leads back behind it. -/
theorem Open.enter {s : Stmt} {q : Point} (h : Open body ⟨l, s :: ss, fs⟩)
    (he : Enters ⟨l, s :: ss, fs⟩ q) (hreturns : stmtsReturn q.stmts = false)
    (hrest : Finishes body ⟨none, ss, fs⟩)
    (hframes : q.frames = .rest ss :: fs ∨ ∃ l later, q.frames = .select l later :: .rest ss :: fs ∧ (later ≠ [] → fallsThrough q.stmts = false)) :
    Open body q where
  place := .enter h.place he
  returns := hreturns
  falls n later fs' hq hlater := by
    rcases hframes with hf | ⟨n', later', hf, hfalls⟩
    · cases hf.symm.trans hq
    · cases hf.symm.trans hq
      exact hfalls hlater
  outward := by
    rcases hframes with hf | ⟨n', later', hf, -⟩
    · exact hf ▸ .rest hrest h.outward
    · exact hf ▸ .select (.rest hrest h.outward)

/-- The run passes by the first statement or goes into a block of it that need not return. The
recursion is on the size of the statements to go. -/
theorem finishes_of_open (hgoto : ∀ l label span ss fs, ¬Place body ⟨l, .goto label span :: ss, fs⟩)
    (hforever : ∀ l b span ss fs, ¬Place body ⟨l, .loop .forever b span :: ss, fs⟩)
    (hplaced : ∀ p, Place body p → p.wellPlaced = true) {l : Option String} {ss : List Stmt}
    {fs : List Frame} (h : Open body ⟨l, ss, fs⟩) : Finishes body ⟨l, ss, fs⟩ := by
  cases ss with
  | nil => exact h.outward.finishes l
  | cons s ss =>
  have hrest : Finishes body ⟨labelName? s, ss, fs⟩ := finishes_of_open hgoto hforever hplaced h.next
  have hreturns : stmtReturns s = false := by
    have := h.returns
    rw [stmtsReturn, Bool.or_eq_false_iff] at this
    exact this.1
  have hwell := hplaced _ h.place
  have hinto {q : Point} (he : Enters ⟨l, s :: ss, fs⟩ q) (hq : Open body q) :
      Finishes body ⟨l, s :: ss, fs⟩ := by
    have hsize : sizeOf q.stmts < sizeOf (s :: ss) := sizeOf_lt_of_enters he
    exact .step (.enter he) (finishes_of_open hgoto hforever hplaced hq)
  by_cases hpass : passes s = true
  · exact .step (.pass hpass) hrest
  cases s with
  | block b => exact hinto .block (h.enter .block hreturns hrest (.inl rfl))
  | branch branches e span =>
    cases e with
    | none => exact (hpass rfl).elim
    | some e =>
      rw [stmtReturns, Bool.and_eq_false_iff] at hreturns
      rcases hreturns with hbranches | hotherwise
      · obtain ⟨b, hb, hb'⟩ := exists_branch_of_not_returns hbranches
        exact hinto (.branch hb) (h.enter (.branch hb) hb' hrest (.inl rfl))
      · exact hinto .otherwise (h.enter .otherwise hotherwise hrest (.inl rfl))
  | select x cases e span =>
    cases e with
    | none => exact (hpass rfl).elim
    | some d =>
      obtain ⟨before, b, later, hbodies, hb, hfalls⟩ := exists_case_of_not_returns hreturns
      exact hinto (.case hbodies)
        (h.enter (.case hbodies) hb hrest (.inr ⟨l, later, rfl, hfalls⟩))
  | loop kind b span =>
    cases kind with
    | forever => exact (hforever _ _ _ _ _ h.place).elim
    | whileTrue | forEach => exact (hpass rfl).elim
  | leave label span =>
    obtain ⟨frame, inner, fs', hleft, rfl⟩ := exists_innermost hwell
    have hout : Outward body (frame :: fs') := h.outward.suffix inner
    exact .step (.leave hleft) ((hout.suffix [frame]).finishes none)
  | again label span => exact absurd hwell (Bool.eq_false_iff.mp h.not_again)
  | fallthrough span => exact absurd hwell (Bool.eq_false_iff.mp h.not_fallthrough)
  | goto label span => exact (hgoto _ _ _ _ _ h.place).elim
  | ret => cases hreturns
  | _ => exact (hpass rfl).elim
termination_by sizeOf ss

/-- Where the structure of a body without a `goto` and without an endless loop does not show that
it returns, some execution reaches its end, if all jumps are where they may stand. -/
theorem fallsOff_of_not_returns
    (hgoto : ∀ l label span ss fs, ¬Place body ⟨l, .goto label span :: ss, fs⟩)
    (hforever : ∀ l b span ss fs, ¬Place body ⟨l, .loop .forever b span :: ss, fs⟩)
    (hplaced : ∀ p, Place body p → p.wellPlaced = true) (h : stmtsReturn body = false) :
    FallsOff body :=
  finishes_of_open hgoto hforever hplaced ⟨.start, h, nofun, .nil⟩

/-- A match of which the default leaves through the `else`: there is a `fallthrough` before it, and
a loop in a case that returns. -/
def leavingMatch (x : Syntax.Expr) (span : Span) : List Stmt :=
  let outer : Syntax.Ident := ⟨"outer", span⟩
  [.label outer span,
    .select none
      [⟨[x], ⟨[.fallthrough span], false, span⟩, span⟩,
        ⟨[x], ⟨[.loop (.whileTrue x) ⟨[.again none span], false, span⟩ span, .ret [] span],
          false, span⟩, span⟩]
      (some ⟨[], ⟨[.branch [⟨x, ⟨[.ret [] span], false, span⟩⟩]
        (some ⟨[.leave (some outer) span], false, span⟩) span], false, span⟩, span⟩)
      span]

/-- A `goto` or a loop without an end is next. -/
def Point.isExempt (p : Point) : Bool :=
  match p.stmts with
  | .goto .. :: _ | .loop .forever .. :: _ => true
  | _ => false

theorem leavingMatch_falls_off :
    let body := leavingMatch default default
    (∀ l label span ss fs, ¬Place body ⟨l, .goto label span :: ss, fs⟩) ∧
      (∀ l b span ss fs, ¬Place body ⟨l, .loop .forever b span :: ss, fs⟩) ∧
      (∀ p, Place body p → p.wellPlaced = true) ∧ stmtsReturn body = false ∧ FallsOff body := by
  intro body
  have hall : (points body).all (fun p => p.wellPlaced && !p.isExempt) = true := by decide
  have hpoint (p : Point) (hp : Place body p) (hstmts : p.stmts ≠ []) :=
    List.all_eq_true.mp hall p (mem_points_iff.mpr ⟨hp, hstmts⟩)
  have hgoto l label span ss fs (hp : Place body ⟨l, .goto label span :: ss, fs⟩) : False := by
    simpa [Point.isExempt] using hpoint _ hp (List.cons_ne_nil _ _)
  have hforever l b span ss fs (hp : Place body ⟨l, .loop .forever b span :: ss, fs⟩) : False := by
    simpa [Point.isExempt] using hpoint _ hp (List.cons_ne_nil _ _)
  have hplaced (p : Point) (hp : Place body p) : p.wellPlaced = true := by
    obtain ⟨l, ss, fs⟩ := p
    cases ss with
    | nil => rfl
    | cons s ss => exact (Bool.and_eq_true_iff.mp (hpoint _ hp (List.cons_ne_nil s ss))).1
  exact ⟨hgoto, hforever, hplaced, rfl, fallsOff_of_not_returns hgoto hforever hplaced rfl⟩

end JaneCheck.Flow
