import JaneCheck.Check.Statement
import JaneCheck.Proofs.Runs
import JaneCheck.Proofs.Tracks
import Mathlib.Data.List.Basic

/-!
# The arms of a match

`WrittenMatch` says how a match statement is written: a subject, and between braces one arm
after the other. The tree has the arms without `_` as its cases, in their order, and the last
of those with `_` as its default, and the body of each arm in the tree is checked
(`match_keeps_arms`). So an arm is lost where another one with `_` follows it
(`first_default_lost`).
-/

namespace JaneCheck

open Syntax

namespace Syntax

/-- An arm as it is written: where it begins, and what is read from there. -/
structure Arm where
  start : Cursor
  case : Case Stmt

/-- The arm has `_` before its arrow. -/
def Arm.isDefault (a : Arm) : Bool :=
  (match a.start.current.kind with
    | .name "_" => true
    | _ => false) && a.start.peek.isSymbol .fatArrow

/-- The arms from a cursor on, up to a closing brace. -/
inductive ArmsFrom (block : Parse Body) : Cursor → List Arm → Cursor → Prop
  | done {c} (h : c.current.kind = .symbol .rbrace) : ArmsFrom block c [] c
  | arm {c case c1 arms c2} (h : Parse.matchArm block c = .ok (case, c1))
      (rest : ArmsFrom block c1 arms c2) : ArmsFrom block c (⟨c, case⟩ :: arms) c2

/-- The subject of a match, which may be left out. -/
inductive SubjectFrom (c : Cursor) : Option Expr → Cursor → Prop
  | none (h : c.current.kind = .symbol .lbrace) : SubjectFrom c none c
  | some {e c'} (h : Parse.condition c = .ok (e, c')) : SubjectFrom c (some e) c'

/-- A match statement from the cursor `c` on. -/
inductive WrittenMatch (block : Parse Body) (c : Cursor) (subject : Option Expr) (arms : List Arm) :
    Cursor → Prop
  | intro {opened closed} (keyword : c.current.kind.isKeyword .matchKw = true)
      (hsubject : SubjectFrom c.advance subject opened)
      (brace : opened.current.kind = .symbol .lbrace)
      (harms : ArmsFrom block opened.advance arms closed) :
      WrittenMatch block c subject arms closed.advance

namespace Parse

/-! ## What is written -/

section Written

variable {block : Parse Body} {c c' : Cursor}

theorem ne_nil_of_commaList {item : Parse α} {as : List α} (h : commaList item c = .ok (as, c')) :
    as ≠ [] := by
  obtain ⟨n, _, hn, h⟩ := exists_of_bind h
  cases hn
  obtain ⟨a, _, -, h⟩ := exists_of_bind h
  obtain ⟨more, _, -, h⟩ := exists_of_bind h
  split at h
  · obtain ⟨rest, _, -, h⟩ := exists_of_bind h
    cases h
    simp
  · cases h
    simp

theorem exists_of_withLiterals {allowed : Bool} {p : Parse α} {a : α}
    (h : withLiterals allowed p c = .ok (a, c')) : ∃ c1 c2, p c1 = .ok (a, c2) := by
  obtain ⟨_, _, -, h⟩ := exists_of_bind h
  obtain ⟨_, c1, -, h⟩ := exists_of_bind h
  obtain ⟨b, c2, hp, h⟩ := exists_of_bind h
  obtain ⟨_, _, -, h⟩ := exists_of_bind h
  cases h
  exact ⟨c1, c2, hp⟩

theorem of_expectKeyword {w : Keyword} (h : expectKeyword w c = .ok ((), c')) :
    c.current.kind.isKeyword w = true ∧ c' = c.advance := by
  obtain ⟨found, c1, haccept, h⟩ := exists_of_bind h
  obtain ⟨_, _, hkind, haccept⟩ := exists_of_bind haccept
  cases hkind
  dsimp only at haccept
  split at haccept
  next hfound =>
    cases haccept
    rw [if_pos hfound] at h
    cases h
    exact ⟨hfound, rfl⟩
  next hfound =>
    cases haccept
    rw [if_neg hfound] at h
    cases h

/-- The arm that is read has no expressions exactly if it is written with `_`. -/
theorem isDefault_of_matchArm {case : Case Stmt} (h : matchArm block c = .ok (case, c')) :
    (⟨c, case⟩ : Arm).isDefault = case.exprs.isEmpty := by
  obtain ⟨_, _, hstart, h⟩ := exists_of_bind h
  cases hstart
  obtain ⟨_, _, hkind, h⟩ := exists_of_bind h
  cases hkind
  extract_lets isDefault rest at h
  have hrest : ∀ {es c1}, rest es c1 = .ok (case, c') → case.exprs = es := by
    intro es c1 h
    obtain ⟨_, _, -, h⟩ := exists_of_bind h
    obtain ⟨_, _, -, h⟩ := exists_of_bind h
    obtain ⟨_, _, -, h⟩ := exists_of_bind h
    obtain ⟨_, _, -, h⟩ := exists_of_bind h
    cases h
    rfl
  obtain ⟨_, _, hpeek, h⟩ := exists_of_bind h
  cases hpeek
  split at h
  next hdefault =>
    obtain ⟨_, _, -, h⟩ := exists_of_bind h
    obtain ⟨es, _, hes, h⟩ := exists_of_bind h
    cases hes
    rw [hrest h]
    exact hdefault
  next hdefault =>
    obtain ⟨es, _, hes, h⟩ := exists_of_bind h
    obtain ⟨_, _, hlist⟩ := exists_of_withLiterals hes
    rw [hrest h, List.isEmpty_eq_false_iff.mpr (ne_nil_of_commaList hlist)]
    exact Bool.eq_false_iff.mpr hdefault

theorem filter_cases {arms : List Arm} (h : ArmsFrom block c arms c') (f : Bool → Bool) :
    (arms.map (·.case)).filter (fun case => f case.exprs.isEmpty) =
      (arms.filter fun a => f a.isDefault).map (·.case) := by
  have hempty : ∀ a ∈ arms, a.isDefault = a.case.exprs.isEmpty := by
    induction h with
    | done _ => simp
    | arm h _ ih => exact List.forall_mem_cons.mpr ⟨isDefault_of_matchArm h, ih⟩
  rw [List.filter_map]
  exact congrArg _ (List.filter_congr fun a ha => congrArg f (hempty a ha).symm)

theorem armsFrom_of_rounds {n : Nat} {cases : List (Case Stmt)}
    (h : repeatUntilRounds .rbrace (matchArm block) n c = .ok (cases, c'))
    (hclose : c'.current.kind = .symbol .rbrace) :
    ∃ arms, ArmsFrom block c arms c' ∧ arms.map (·.case) = cases := by
  induction n generalizing c cases with
  | zero =>
    cases h
    exact ⟨[], .done hclose, rfl⟩
  | succ n ih =>
    obtain ⟨_, _, hkind, h⟩ := exists_of_bind h
    cases hkind
    split at h
    · cases h
      exact ⟨[], .done hclose, rfl⟩
    · obtain ⟨case, c1, harm, h⟩ := exists_of_bind h
      obtain ⟨rest, c2, hrest, h⟩ := exists_of_bind h
      cases h
      obtain ⟨arms, harms, rfl⟩ := ih hrest
      exact ⟨⟨c, case⟩ :: arms, .arm harm harms, rfl⟩

/-- The tree of a match statement, from what is written. -/
theorem written_of_matchStmt {s : Stmt} (h : matchStmt block c = .ok (s, c')) :
    ∃ subject arms span, WrittenMatch block c subject arms c' ∧
      s = .select subject ((arms.filter (!·.isDefault)).map (·.case))
        ((arms.filter (·.isDefault)).map (·.case)).getLast? span := by
  obtain ⟨_, _, hstart, h⟩ := exists_of_bind h
  cases hstart
  obtain ⟨⟨⟩, _, hword, h⟩ := exists_of_bind h
  obtain ⟨hkeyword, rfl⟩ := of_expectKeyword hword
  obtain ⟨_, _, hbare, h⟩ := exists_of_bind h
  cases hbare
  extract_lets rest at h
  have hrest : ∀ {subject opened}, SubjectFrom c.advance subject opened →
      rest subject opened = .ok (s, c') → ∃ arms span, WrittenMatch block c subject arms c' ∧
        s = .select subject ((arms.filter (!·.isDefault)).map (·.case))
          ((arms.filter (·.isDefault)).map (·.case)).getLast? span := by
    intro subject opened hsubject h
    obtain ⟨⟨⟩, _, hopen, h⟩ := exists_of_bind h
    obtain ⟨hbrace, rfl⟩ := of_expect hopen
    obtain ⟨read, closed, hread, h⟩ := exists_of_bind h
    obtain ⟨⟨⟩, _, hend, h⟩ := exists_of_bind h
    obtain ⟨hclose, rfl⟩ := of_expect hend
    obtain ⟨n, _, hn, hread⟩ := exists_of_bind hread
    cases hn
    obtain ⟨arms, harms, rfl⟩ := armsFrom_of_rounds hread hclose
    cases h
    rw [filter_cases harms (!·), filter_cases harms (·)]
    exact ⟨arms, _, .intro hkeyword hsubject hbrace harms, rfl⟩
  split at h
  next hbare =>
    obtain ⟨_, _, hnone, h⟩ := exists_of_bind h
    cases hnone
    exact ⟨none, hrest (.none (eq_symbol_of_isSymbol hbare)) h⟩
  next =>
    obtain ⟨_, opened, hsome, h⟩ := exists_of_bind h
    replace hsome : (condition >>= fun e => pure (some e)) c.advance = .ok (_, opened) := hsome
    obtain ⟨e, _, hcondition, hsome⟩ := exists_of_bind hsome
    cases hsome
    exact ⟨some e, hrest (.some hcondition) h⟩

end Written

end Parse

/-! ## What is lost -/

/-- Of the arms with `_` one is kept, so all arms are if there is no second one. -/
theorem kept_all_iff (arms : List Arm) :
    ((arms.filter (!·.isDefault)).map (·.case)).length +
        ((arms.filter (·.isDefault)).map (·.case)).getLast?.toList.length = arms.length ↔
      (arms.filter (·.isDefault)).length ≤ 1 := by
  have hsplit := List.length_eq_length_filter_add (l := arms) (·.isDefault)
  have hlast : ∀ cases : List (Case Stmt), cases.getLast?.toList.length = min 1 cases.length := by
    intro cases
    cases cases <;> simp [List.getLast?_cons]
  rw [hlast, List.length_map, List.length_map, hsplit]
  omega

end Syntax

/-! ## What is checked -/

namespace Check

/-- In the course of a check from `s` to `s'` in `c`, the body is checked as that of a case, in
a block of its own. -/
def CheckedWithin (p : Package) (o : Options) (n : Nat) (c : Context) (s s' : State) (body : Body) :
    Prop :=
  ∃ b isFinal s1 s2, s.Le s1 ∧ s2.Le s' ∧
    run p o n (Excursion.matchCase ⟨b, body.stmts.length, isFinal⟩ (Excursion.block b c))
      (checkStmts body.stmts) s1 = some ((), s2)

section Checks

variable {p : Package} {o : Options} {n : Nat} {c : Context} {s s' s1 s2 : State} {body : Body}

theorem CheckedWithin.extend (h : CheckedWithin p o n c s1 s2 body) (hle : s.Le s1)
    (hle' : s2.Le s') : CheckedWithin p o n c s s' body := by
  obtain ⟨b, isFinal, t1, t2, hbefore, hafter, hrun⟩ := h
  exact ⟨b, isFinal, t1, t2, hle.trans hbefore, hafter.trans hle', hrun⟩

theorem checkedWithin_withCase {isFinal : Bool}
    (h : run p o n c (withCase body.isUnsafe body.stmts.length isFinal
      (checkFrom body.stmts 0 none)) s = some ((), s')) : CheckedWithin p o n c s s' body := by
  obtain ⟨b, scopes, s1, hrun, hle⟩ := run_withBlock h
  exact ⟨b, isFinal, _, s1, s.le_scopes scopes, hle, hrun⟩

theorem checkedWithin_checkCases {hasSubject hasDefault : Bool} {subject : Option Value}
    {cases : List (Case Stmt)}
    (h : run p o n c (checkCases hasSubject subject hasDefault cases) s = some ((), s')) :
    ∀ case ∈ cases, CheckedWithin p o n c s s' case.body := by
  induction cases generalizing s with
  | nil => simp
  | cons case cases ih =>
    obtain ⟨exprs, ⟨stmts, isUnsafe, place⟩, span⟩ := case
    rw [checkCases] at h
    obtain ⟨⟨⟩, s1, hexprs, h⟩ := run_bind.mp h
    obtain ⟨⟨⟩, s2, hbody, h⟩ := run_bind.mp h
    have hfirst : CheckedWithin p o n c s1 s2 ⟨stmts, isUnsafe, place⟩ := checkedWithin_withCase hbody
    refine List.forall_mem_cons.mpr ⟨hfirst.extend (Step.le _ hexprs) (Step.le _ h), ?_⟩
    exact fun case hcase => (ih h case hcase).extend
      ((Step.le _ hexprs).trans (Step.le _ hbody)) (.refl _)

theorem checkedWithin_select {subject : Option Expr} {cases : List (Case Stmt)}
    {otherwise : Option (Case Stmt)} {span : Span} {label : Option String}
    (h : run p o n c (checkStmt (.select subject cases otherwise span) label) s = some ((), s')) :
    ∀ case ∈ cases ++ otherwise.toList,
      CheckedWithin p o n (Excursion.breakable ⟨label, false⟩ c) s s' case.body := by
  cases otherwise with
  | none =>
    rw [checkStmt] at h
    obtain ⟨value, s1, hsubject, h⟩ := run_bind.mp h
    intro case hcase
    simp only [Option.toList_none, List.append_nil] at hcase
    exact (checkedWithin_checkCases h case hcase).extend (Step.le _ hsubject) (.refl _)
  | some last =>
    obtain ⟨exprs, ⟨stmts, isUnsafe, place⟩, span⟩ := last
    rw [checkStmt] at h
    obtain ⟨value, s1, hsubject, h⟩ := run_bind.mp h
    obtain ⟨⟨⟩, s2, hcases, h⟩ := run_bind.mp h
    obtain ⟨⟨⟩, s3, hexprs, hlast⟩ := run_bind.mp h
    have hchecked : CheckedWithin p o n _ s3 s' ⟨stmts, isUnsafe, place⟩ :=
      checkedWithin_withCase hlast
    refine List.forall_mem_append.mpr ⟨fun case hcase => ?_, List.forall_mem_singleton.mpr ?_⟩
    · exact (checkedWithin_checkCases hcases case hcase).extend (Step.le _ hsubject) (Step.le _ h)
    · exact hchecked.extend (((Step.le _ hsubject).trans (Step.le _ hcases)).trans
        (Step.le _ hexprs)) (.refl _)

end Checks

end Check

/-- The tree of a match has the arms without `_` and the last one with it. These are all arms
if there is no second one with `_`, and the bodies of all that it has are checked with it. -/
theorem match_keeps_arms (block : Parse Body) (c c' : Cursor) (s : Stmt)
    (h : Parse.matchStmt block c = .ok (s, c')) :
    ∃ subject arms cases otherwise span, WrittenMatch block c subject arms c' ∧
      s = .select subject cases otherwise span ∧
      cases = (arms.filter (!·.isDefault)).map (·.case) ∧
      otherwise = ((arms.filter (·.isDefault)).map (·.case)).getLast? ∧
      (cases.length + otherwise.toList.length = arms.length ↔
        (arms.filter (·.isDefault)).length ≤ 1) ∧
      ∀ p o n context label state state',
        Check.run p o n context (Check.checkStmt s label) state = some ((), state') →
          ∀ case ∈ cases ++ otherwise.toList, Check.CheckedWithin p o n
            (Check.Excursion.breakable ⟨label, false⟩ context) state state' case.body := by
  obtain ⟨subject, arms, span, hwritten, rfl⟩ := Parse.written_of_matchStmt h
  exact ⟨subject, arms, _, _, span, hwritten, rfl, rfl, rfl, kept_all_iff arms,
    fun _ _ _ _ _ _ _ hrun => Check.checkedWithin_select hrun⟩

/-! ## Two arms -/

/-- `match { first => { 1 } _ => { } }`. -/
def twoArms (first : Token.Kind) : Cursor :=
  .ofTokens (List.map (⟨·, default⟩) [.keyword .matchKw, .symbol .lbrace, first, .symbol .fatArrow,
    .symbol .lbrace, .int 1, .symbol .rbrace, .name "_", .symbol .fatArrow, .symbol .lbrace,
    .symbol .rbrace, .symbol .rbrace, .eof])

theorem match_keeps_arms_twoArms : ∃ s c', Parse.matchStmt Parse.block (twoArms (.int 1)) =
    .ok (s, c') ∧ ∃ subject arms cases otherwise span,
      WrittenMatch Parse.block (twoArms (.int 1)) subject arms c' ∧
      s = .select subject cases otherwise span ∧
      (cases.length + otherwise.toList.length = arms.length ↔
        (arms.filter (·.isDefault)).length ≤ 1) := by
  refine ⟨_, _, rfl, ?_⟩
  obtain ⟨subject, arms, cases, otherwise, span, hwritten, hs, -, -, hcount, -⟩ :=
    match_keeps_arms Parse.block (twoArms (.int 1)) _ _ rfl
  exact ⟨subject, arms, cases, otherwise, span, hwritten, hs, hcount⟩

/-- Of two arms with `_` the tree has the second one only. -/
theorem first_default_lost : ∃ arms subject otherwise span c',
    WrittenMatch Parse.block (twoArms (.name "_")) subject arms c' ∧ arms.length = 2 ∧
    Parse.matchStmt Parse.block (twoArms (.name "_")) =
      .ok (.select subject [] (some otherwise) span, c') ∧ otherwise.body.stmts = [] :=
  ⟨_, _, _, _, _, .intro rfl (.none rfl) rfl (.arm rfl (.arm rfl (.done rfl))), rfl, rfl, rfl⟩

end JaneCheck
