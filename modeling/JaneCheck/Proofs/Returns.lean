import JaneCheck.Proofs.Execution
import JaneCheck.Report

/-!
# Falling off the end

A body of which the structure shows that it returns has executions that reach
its end nevertheless. `escape_of_reaches_end` says how: each of them takes a
`goto`, leaves a match by a `break`, or leaves an endless loop by a `break` from
inside another loop or match. Without such a jump there is a `return` on every
path.

`Guarded` is the invariant of executions without these jumps. Control never
completes a list that `NeverEnds`; where it completes one, the frames around it
hold it back.
-/

namespace JaneCheck.Flow

open Check (labelName?)
open Syntax (Branch Case LoopKind Stmt)

/-! ## Jumps that the structure does not show -/

/-- The next step is a `goto`, a `break` of a match, or a `break` of an endless
loop that is not the innermost statement to leave. -/
inductive Escapes : Point → Prop
  | goto {l label span ss fs} : Escapes ⟨l, .goto label span :: ss, fs⟩
  | select {l label span ss fs n later fs'}
      (h : Frame.innermost (·.takesBreak (label.map (·.name))) fs = some (.select n later, fs')) :
      Escapes ⟨l, .leave label span :: ss, fs⟩
  | outer {l label span ss fs n b fs'}
      (h : Frame.innermost (·.takesBreak (label.map (·.name))) fs = some (.loop n .forever b, fs'))
      (hinner : Frame.innermost (·.takesBreak none) fs ≠ some (.loop n .forever b, fs')) :
      Escapes ⟨l, .leave label span :: ss, fs⟩

/-! ## The invariant -/

/-- Control that enters the list does not come out behind its last statement. -/
def NeverEnds (ss : List Stmt) : Prop := stmtsReturn ss = true ∨ fallsThrough ss = true

/-- Control that completes the statements inside does not get through the frames. -/
def Holds : List Frame → Prop
  | [] => False
  | .rest ss :: fs => NeverEnds ss ∨ Holds fs
  | .loop _ kind b :: fs => kind = .forever ∧ stmtsBreak b = false ∨ Holds fs
  | .select _ _ :: fs => Holds fs

/-- Control that leaves the innermost loop does not get through the frames
around it. Of a match nothing is said. -/
def HoldsBreak : List Frame → Prop
  | [] | .select _ _ :: _ => True
  | .rest _ :: fs => HoldsBreak fs
  | .loop _ _ _ :: fs => Holds fs

/-- What each frame owes to those around it. -/
def Kept : List Frame → Prop
  | [] => True
  | .rest ss :: fs => (stmtsBreak ss = true → HoldsBreak fs) ∧ Kept fs
  | .loop n kind b :: fs => Holds (.loop n kind b :: fs) ∧ Kept fs
  | .select _ later :: fs => ((∀ b ∈ later, NeverEnds b) ∨ Holds fs) ∧ Kept fs

structure Guarded (p : Point) : Prop where
  ends : NeverEnds p.stmts ∨ Holds p.frames
  breaks : stmtsBreak p.stmts = true → HoldsBreak p.frames
  kept : Kept p.frames

/-! ## Lists of statements -/

@[simp] theorem not_neverEnds_nil : ¬NeverEnds [] := by simp [NeverEnds, stmtsReturn, fallsThrough]

variable {fs fs' : List Frame} {ss : List Stmt} {s : Stmt} {l : Option String} {span : Span}
  {branches : List (Branch Stmt)} {b : Branch Stmt} {p q : Point} {frame : Frame}

/-- A list that never ends does not because of its first statement or because of
the others. -/
theorem NeverEnds.cons (h : NeverEnds (s :: ss)) :
    stmtReturns s = true ∨ fallsThrough [s] = true ∨ NeverEnds ss := by
  rcases h with h | h
  · rw [stmtsReturn, Bool.or_eq_true] at h
    exact h.imp_right fun h => .inr (.inl h)
  · cases ss with
    | nil => exact .inr (.inl h)
    | cons t ts => exact .inr (.inr (.inr (by rwa [fallsThrough, List.getLast?_cons_cons] at h)))

theorem Guarded.rest (h : Guarded ⟨l, s :: ss, fs⟩) (hs : fallsThrough [s] = false) :
    stmtReturns s = true ∨ Holds (.rest ss :: fs) := by
  rcases h.ends with hends | hholds
  · rcases hends.cons with hreturns | hfalls | hrest
    · exact .inl hreturns
    · rw [hs] at hfalls
      cases hfalls
    · exact .inr (.inl hrest)
  · exact .inr (.inr hholds)

theorem Guarded.breaksRest (h : Guarded ⟨l, s :: ss, fs⟩) : stmtsBreak ss = true → HoldsBreak fs :=
  fun hbreak => h.breaks (by simp [stmtsBreak, hbreak])

theorem Guarded.breaksFirst (h : Guarded ⟨l, s :: ss, fs⟩) : stmtBreaks s = true → HoldsBreak fs :=
  fun hbreak => h.breaks (by simp [stmtsBreak, hbreak])

/-! ## Statements with blocks -/

theorem stmtsReturn_of_mem_branches (h : branchesReturn branches = true) (hb : b ∈ branches) :
    stmtsReturn b.body.stmts = true := by
  induction branches with
  | nil => cases hb
  | cons first branches ih =>
    obtain ⟨cond, stmts, isUnsafe, span⟩ := first
    rw [branchesReturn, Bool.and_eq_true] at h
    rcases List.mem_cons.mp hb with rfl | hb
    · exact h.1
    · exact ih h.2 hb

theorem branchesBreak_of_mem (hb : b ∈ branches) (h : stmtsBreak b.body.stmts = true) :
    branchesBreak branches = true := by
  induction branches with
  | nil => cases hb
  | cons first branches ih =>
    obtain ⟨cond, stmts, isUnsafe, span⟩ := first
    rw [branchesBreak, Bool.or_eq_true]
    rcases List.mem_cons.mp hb with rfl | hb
    · exact .inl h
    · exact .inr (ih hb)

theorem branchReturns_of_mem {e : Option Syntax.Body} (hb : b ∈ branches)
    (h : stmtReturns (.branch branches e span) = true) : stmtsReturn b.body.stmts = true := by
  cases e with
  | none => simp [stmtReturns] at h
  | some e =>
    obtain ⟨stmts, isUnsafe, span⟩ := e
    rw [stmtReturns, Bool.and_eq_true] at h
    exact stmtsReturn_of_mem_branches h.1 hb

theorem branchBreaks_of_mem {e : Option Syntax.Body} (hb : b ∈ branches)
    (h : stmtsBreak b.body.stmts = true) : stmtBreaks (.branch branches e span) = true := by
  have hbreak := branchesBreak_of_mem hb h
  cases e with
  | none => simpa [stmtBreaks] using hbreak
  | some e => simp [stmtBreaks, hbreak]

/-- In a match that returns, no case ends. -/
theorem neverEnds_of_mem_caseBodies {x : Option Syntax.Expr} {cases : List (Case Stmt)}
    {e : Option (Case Stmt)} (h : stmtReturns (.select x cases e span) = true) :
    ∀ b ∈ caseBodies cases e, NeverEnds b := by
  cases e with
  | none => simp [stmtReturns] at h
  | some e =>
    obtain ⟨exprs, ⟨stmts, isUnsafe, bodySpan⟩, caseSpan⟩ := e
    rw [stmtReturns, Bool.and_eq_true] at h
    obtain ⟨hdefault, hcases⟩ := h
    induction cases with
    | nil =>
      intro b hb
      obtain rfl : b = stmts := by simpa [caseBodies] using hb
      exact .inl hdefault
    | cons c cases ih =>
      obtain ⟨caseExprs, ⟨caseStmts, caseUnsafe, caseBodySpan⟩, span⟩ := c
      rw [casesReturn, Bool.and_eq_true, Bool.or_eq_true] at hcases
      intro b hb
      rcases List.mem_cons.mp hb with rfl | hb
      · exact hcases.1
      · exact ih hcases.2 b hb

theorem guarded_enters (h : Guarded p) (he : Enters p q) : Guarded q := by
  cases he with
  | @block _ b _ _ =>
    obtain ⟨stmts, isUnsafe, span⟩ := b
    exact ⟨(h.rest rfl).imp_left fun hr => .inl (by rwa [stmtReturns] at hr),
      fun hb => h.breaksFirst (by rwa [stmtBreaks]), h.breaksRest, h.kept⟩
  | branch hb =>
    exact ⟨(h.rest rfl).imp_left fun hr => .inl (branchReturns_of_mem hb hr),
      fun hbreak => h.breaksFirst (branchBreaks_of_mem hb hbreak), h.breaksRest, h.kept⟩
  | @otherwise _ branches b _ _ _ =>
    obtain ⟨stmts, isUnsafe, span⟩ := b
    refine ⟨(h.rest rfl).imp_left fun hr => .inl ?_, fun hb => h.breaksFirst ?_, h.breaksRest,
      h.kept⟩
    · rw [stmtReturns, Bool.and_eq_true] at hr
      exact hr.2
    · simp [stmtBreaks, show stmtsBreak stmts = true from hb]
  | @loop l kind b span ss fs =>
    obtain ⟨stmts, isUnsafe, bodySpan⟩ := b
    -- an endless loop without a break holds; any other lets control through
    have hholds : Holds (.loop l kind stmts :: .rest ss :: fs) := by
      rcases h.rest rfl with hr | hrest
      · cases kind with
        | forever =>
          rw [stmtReturns, Bool.and_eq_true, Bool.not_eq_true'] at hr
          exact .inl ⟨rfl, hr.1⟩
        | whileTrue cond => simp [stmtReturns] at hr
        | forEach vars subject => simp [stmtReturns] at hr
      · exact .inr hrest
    refine ⟨.inr hholds, fun hb => ?_, hholds, h.breaksRest, h.kept⟩
    rcases hholds with ⟨-, hnone⟩ | hrest
    · have hbreak : stmtsBreak stmts = true := hb
      rw [hnone] at hbreak
      cases hbreak
    · exact hrest
  | @case l x cases e span ss fs before body later hcases =>
    rcases h.rest rfl with hr | hrest
    · have hnever := neverEnds_of_mem_caseBodies hr
      rw [hcases] at hnever
      exact ⟨.inl (hnever body (by simp)), fun _ => trivial,
        .inl fun b hb => hnever b (by simp [hb]), h.breaksRest, h.kept⟩
    · exact ⟨.inr hrest, fun _ => trivial, .inr hrest, h.breaksRest, h.kept⟩

/-! ## Jumps -/

theorem innermost_eq_some {f : Frame → Bool} (h : Frame.innermost f fs = some (frame, fs')) :
    f frame = true ∧ ∃ inner, fs = inner ++ frame :: fs' := by
  induction fs with
  | nil => cases h
  | cons g gs ih =>
    rw [Frame.innermost] at h
    split at h
    next hg =>
      cases h
      exact ⟨hg, [], rfl⟩
    next =>
      obtain ⟨hf, inner, rfl⟩ := ih h
      exact ⟨hf, g :: inner, rfl⟩

theorem Kept.tail {f : Frame} (h : Kept (f :: fs)) : Kept fs := by
  cases f <;> exact h.2

theorem Kept.suffix (inner : List Frame) (h : Kept (inner ++ fs)) : Kept fs := by
  induction inner with
  | nil => exact h
  | cons f inner ih => exact ih h.tail

/-- The innermost loop is left into the frames that `HoldsBreak` is about. -/
theorem HoldsBreak.holds {n : Option String} {kind : LoopKind} {b : List Stmt} (h : HoldsBreak fs)
    (hin : Frame.innermost (·.takesBreak none) fs = some (.loop n kind b, fs')) : Holds fs' := by
  induction fs with
  | nil => cases hin
  | cons f fs ih =>
    cases f with
    | rest ss => exact ih h hin
    | loop _ _ _ =>
      cases hin
      exact h
    | select _ _ => cases hin

theorem guarded_leave {label : Option Syntax.Ident} (h : Guarded ⟨l, .leave label span :: ss, fs⟩)
    (hescapes : ¬Escapes ⟨l, .leave label span :: ss, fs⟩)
    (htarget : Frame.innermost (·.takesBreak (label.map (·.name))) fs = some (frame, fs')) :
    Guarded ⟨none, [], fs'⟩ := by
  obtain ⟨htakes, inner, rfl⟩ := innermost_eq_some htarget
  have hkept : Kept (frame :: fs') := .suffix inner h.kept
  refine ⟨.inr ?_, by simp [stmtsBreak], hkept.tail⟩
  cases frame with
  | rest ss' => cases htakes
  | select n later => exact (hescapes (.select htarget)).elim
  | loop n kind b =>
    rcases hkept.1 with ⟨rfl, -⟩ | hholds
    · -- an endless loop is left from directly inside it
      by_cases hinner : Frame.innermost (·.takesBreak none) (inner ++ .loop n .forever b :: fs') =
          some (.loop n .forever b, fs')
      · exact (h.breaksFirst rfl).holds hinner
      · exact (hescapes (.outer htarget hinner)).elim
    · exact hholds

theorem guarded_again {label : Option Syntax.Ident} (h : Guarded ⟨l, .again label span :: ss, fs⟩)
    (htarget : Frame.innermost (·.takesContinue (label.map (·.name))) fs = some (frame, fs')) :
    Guarded ⟨none, [], frame :: fs'⟩ := by
  obtain ⟨htakes, inner, rfl⟩ := innermost_eq_some htarget
  have hkept : Kept (frame :: fs') := .suffix inner h.kept
  cases frame with
  | loop n kind b => exact ⟨.inr hkept.1, by simp [stmtsBreak], hkept⟩
  | rest _ | select _ _ => cases htakes

/-! ## Executions -/

/-- A statement that lets control pass neither returns nor goes on elsewhere. -/
theorem not_ends_of_passes (h : passes s = true) :
    stmtReturns s = false ∧ fallsThrough [s] = false := by
  cases s with
  | branch branches e span => cases e <;> simp_all [passes, stmtReturns, fallsThrough]
  | select x cases e span => cases e <;> simp_all [passes, stmtReturns, fallsThrough]
  | loop kind b span => cases kind <;> simp_all [passes, stmtReturns, fallsThrough]
  | _ => simp_all [passes, stmtReturns, fallsThrough]

/-- What one step preserves. -/
theorem guarded_step {body : List Stmt} (h : Guarded p) (hescapes : ¬Escapes p)
    (hstep : Step body p q) : Guarded q := by
  cases hstep with
  | enter he => exact guarded_enters h he
  | pass hpass =>
    obtain ⟨hreturns, hfalls⟩ := not_ends_of_passes hpass
    rcases h.rest hfalls with hr | hrest
    · rw [hreturns] at hr
      cases hr
    · exact ⟨hrest, h.breaksRest, h.kept⟩
  | resume =>
    have hrest := h.ends.resolve_left not_neverEnds_nil
    exact ⟨hrest, h.kept.1, h.kept.2⟩
  | @round _ n kind b fs =>
    refine ⟨.inr h.kept.1, fun hb => ?_, h.kept⟩
    rcases h.kept.1 with ⟨-, hnone⟩ | hholds
    · have hbreak : stmtsBreak b = true := hb
      rw [hnone] at hbreak
      cases hbreak
    · exact hholds
  | stop hkind =>
    refine ⟨.inr ?_, by simp [stmtsBreak], h.kept.2⟩
    exact h.kept.1.resolve_left fun hforever => hkind hforever.1
  | close => exact ⟨.inr (h.ends.resolve_left not_neverEnds_nil), by simp [stmtsBreak], h.kept.2⟩
  | leave htarget => exact guarded_leave h hescapes htarget
  | again htarget => exact guarded_again h htarget
  | goto => exact (hescapes .goto).elim
  | fallthrough =>
    obtain ⟨hlater, hkept⟩ := h.kept
    exact ⟨hlater.imp_left fun hnever => hnever _ (by simp), fun _ => trivial,
      hlater.imp_left fun hnever b hb => hnever b (by simp [hb]), hkept⟩

/-- A run without an escape stays guarded. -/
theorem guarded_or_escape {body : List Stmt} (h : Guarded p) (hrun : Reaches body p q) :
    Guarded q ∨ ∃ e, Reaches body p e ∧ Escapes e ∧ Reaches body e q := by
  induction hrun with
  | refl => exact .inl h
  | @tail q r hpq hqr ih =>
    rcases ih with hq | ⟨e, hpe, he, heq⟩
    · by_cases hescapes : Escapes q
      · exact .inr ⟨q, hpq, hescapes, .single hqr⟩
      · exact .inl (guarded_step hq hescapes hqr)
    · exact .inr ⟨e, hpe, he, heq.tail hqr⟩

theorem not_guarded_of_atEnd (h : p.AtEnd) : ¬Guarded p := by
  intro hg
  rcases hg.ends with hends | hholds
  · rw [h.1] at hends
    exact not_neverEnds_nil hends
  · rw [h.2] at hholds
    exact hholds

/-- Where the structure of a body shows that it returns, an execution reaches
the end only by way of a `goto`, of a `break` of a match, or of a `break` of an
endless loop from inside another loop or match. -/
theorem escape_of_reaches_end {body : List Stmt} (h : stmtsReturn body = true) {p : Point}
    (hrun : Reaches body (.start body) p) (hend : p.AtEnd) :
    ∃ e, Reaches body (.start body) e ∧ Escapes e ∧ Reaches body e p := by
  have hstart : Guarded (.start body) := ⟨.inl (.inl h), fun _ => trivial, trivial⟩
  exact (guarded_or_escape hstart hrun).resolve_left (not_guarded_of_atEnd hend)

/-! ## A match that is left by a break -/

/-- A match whose only case breaks out of it before it returns. -/
def breakingMatch (x : Option Syntax.Expr) (exprs values : List Syntax.Expr) (isUnsafe : Bool)
    (leave ret block case whole : Span) : List Stmt :=
  [.select x [] (some ⟨exprs, ⟨[.leave none leave, .ret values ret], isUnsafe, block⟩, case⟩) whole]

theorem reaches_breakingMatch {x : Option Syntax.Expr} {exprs values : List Syntax.Expr}
    {isUnsafe : Bool} {leave ret block case whole : Span} :
    let body := breakingMatch x exprs values isUnsafe leave ret block case whole
    Reaches body (.start body) ⟨none, [], []⟩ := by
  intro body
  have htaken : Step body (.start body)
      ⟨none, [.leave none leave, .ret values ret], [.select none [], .rest []]⟩ :=
    .enter (.case (List.nil_append _).symm)
  exact .head htaken (.head (.leave rfl) (.head .resume .refl))

theorem escape_of_breakingMatch :
    let body := breakingMatch none [] [] false default default default default default
    stmtsReturn body = true ∧ Reaches body (.start body) ⟨none, [], []⟩ ∧
      ∃ e, Reaches body (.start body) e ∧ Escapes e ∧ Reaches body e ⟨none, [], []⟩ :=
  ⟨rfl, reaches_breakingMatch, escape_of_reaches_end rfl reaches_breakingMatch ⟨rfl, rfl⟩⟩

/-- A source file with such a match. -/
def breakingSource : Source := ⟨"main.jn", "fn f() -> int { match { _ => { break return 1 } } }"⟩

/-- The text is a function with such a match. -/
def isBreakingFunction : List (Except SyntaxError Syntax.Program) → Bool
  | [.ok [.function f]] =>
    match f.body.stmts with
    | [.select _ [] (some ⟨_, ⟨[.leave none _, .ret _ _], _, _⟩, _⟩) _] => true
    | _ => false
  | _ => false

open Report in
set_option maxRecDepth 100000 in
/-- Nothing is reported of the file, and its function falls off its end. -/
theorem breakingSource_falls_off :
    ∃ r f, check {} [breakingSource] = some r ∧
      (∀ file ∈ r.files, file.fatal = none ∧ file.diags = []) ∧
      parseAll [breakingSource] = [.ok [.function f]] ∧ stmtsReturn f.body.stmts = true ∧
      FallsOff f.body.stmts := by
  have hcheck : (check {} [breakingSource]).any (fun r =>
      r.files.all fun file => file.fatal.isNone && file.diags.isEmpty) = true := by decide +kernel
  have hparse : isBreakingFunction (parseAll [breakingSource]) = true := by decide +kernel
  obtain ⟨r, hr, hclean⟩ := (Option.any_eq_true _ _).mp hcheck
  unfold isBreakingFunction at hparse
  split at hparse
  next f hf =>
    split at hparse
    next hbody =>
      refine ⟨r, f, hr, by simpa using hclean, hf, ?_, ?_⟩
      · rw [hbody]
        rfl
      · rw [hbody]
        exact ⟨_, reaches_breakingMatch, rfl, rfl⟩
    next => cases hparse
  next => cases hparse

end JaneCheck.Flow
