import JaneCheck.Proofs.Levels.Ranks
import JaneCheck.Proofs.Machine
import JaneCheck.Report
import Mathlib

/-!
# Where resolution and evaluation end

With a bound on the templates that are open inside each other the recursion of
resolution and evaluation is total. Without one it ends exactly where some
bound is not reached. A template whose array size reads a field of the same
template reaches every bound.
-/

namespace JaneCheck.Check

open Syntax (Expr TypeExpr)

section Ends

variable (p : Package) (o : Options)

theorem resolve_ends_iff (c : Context) (t : TypeExpr) (s : State) (r : Option Ty × State) :
    (∃ n, (resolveAt p o n c t).run s = some r) ↔
      ∃ k, (resolveWithin p o k c t).run s = some r := by
  constructor
  · rintro ⟨n, h⟩
    refine ⟨c.bindings.depth + n, ?_⟩
    generalize hk : c.bindings.depth + n = k
    have hmax := (at_below_nested n).1 c t (n + rank p k c (typeWeight t) + 1)
      (Nat.le_of_eq hk) (by omega) h
    have hsame : resolveNested p o k (n + rank p k c (typeWeight t) + 1) c t =
        resolveWithin p o k c t := resolveNested_eq (by omega) (Nat.lt_succ_self _)
    rw [hsame] at hmax
    exact hmax
  · rintro ⟨k, h⟩
    exact ⟨_, (nested_below_at _).1 c t h⟩

theorem eval_ends_iff (c : Context) (e : Expr) (hint : Option Ty) (s : State)
    (r : Value × State) :
    (∃ n, (evalAt p o n c e hint).run s = some r) ↔
      ∃ k, (evalWithin p o k c e hint).run s = some r := by
  constructor
  · rintro ⟨n, h⟩
    refine ⟨c.bindings.depth + n, ?_⟩
    generalize hk : c.bindings.depth + n = k
    have hmax := (at_below_nested n).2 c e hint (n + rank p k c (exprWeight e) + 1)
      (Nat.le_of_eq hk) (by omega) h
    have hsame : evalNested p o k (n + rank p k c (exprWeight e) + 1) c e hint =
        evalWithin p o k c e hint := evalNested_eq (by omega) (Nat.lt_succ_self _)
    rw [hsame] at hmax
    exact hmax
  · rintro ⟨k, h⟩
    exact ⟨_, (nested_below_at _).2 c e hint h⟩

/-- Resolution and evaluation end exactly where the templates that they open
inside each other are bounded: with a bound `k` they are a recursion that needs
no levels, and an answer with levels is an answer under some bound. -/
theorem ends_iff_templates_bounded :
    (∀ k c t, resolveWithin p o k c t =
      if k < c.bindings.depth then .tooDeep
      else resolveStep t ⟨p, o, c, resolveWithin p o k, evalWithin p o k⟩) ∧
    (∀ k c e hint, evalWithin p o k c e hint =
      if k < c.bindings.depth then .tooDeep
      else evalStep e hint ⟨p, o, c, resolveWithin p o k, evalWithin p o k⟩) ∧
    (∀ c t s r, (∃ n, (resolveAt p o n c t).run s = some r) ↔
      ∃ k, (resolveWithin p o k c t).run s = some r) ∧
    ∀ c e hint s r, (∃ n, (evalAt p o n c e hint).run s = some r) ↔
      ∃ k, (evalWithin p o k c e hint).run s = some r :=
  ⟨resolveWithin_eq p o, evalWithin_eq p o, resolve_ends_iff p o, eval_ends_iff p o⟩

end Ends

/-! ## A size that reads itself -/

/-- Whatever the step answers satisfies `P`. -/
def Step.Answers (x : Step α) (P : α → Prop) : Prop := ∀ ⦃s a t⦄, x.run s = some (a, t) → P a

section Answers

variable {env : Env} {P : α → Prop} {R : β → Prop}

theorem answers_pure {a : α} (h : P a) : ((pure a : Check α) env).Answers P := by
  intro s b t hrun
  cases hrun
  exact h

theorem answers_bind {x : Check α} {f : α → Check β} (hx : (x env).Answers P)
    (hf : ∀ a, P a → (f a env).Answers R) : ((x >>= f) env).Answers R := by
  intro s b t hrun
  obtain ⟨a, u, hxa, hrun⟩ := run_bind.mp hrun
  exact hf a (hx hxa) hrun

theorem answers_context {f : Context → Check β} (h : (f env.context env).Answers R) :
    ((context >>= f) env).Answers R := h

theorem answers_package {f : Package → Check β} (h : (f env.package env).Answers R) :
    ((package >>= f) env).Answers R := h

theorem answers_quietly {x : Check α} (hx : (x env).Answers P) : (quietly x env).Answers P := by
  intro s a t hrun
  obtain ⟨⟨b, u⟩, hu, he⟩ := Option.map_eq_some_iff.mp hrun
  cases he
  exact hx hu

end Answers

/-- The literal `S::[T]{}`. -/
def selfLiteral : Expr :=
  .structLit ⟨"S", ⟨18, 19, 0⟩⟩ [.named ⟨"T", ⟨22, 23, 0⟩⟩ [] ⟨22, 23, 0⟩] [] ⟨18, 26, 0⟩

def selfMember : Expr := .field selfLiteral ⟨"a", ⟨27, 28, 0⟩⟩ ⟨18, 28, 0⟩

def selfLength : Expr := .field selfMember ⟨"len", ⟨29, 32, 0⟩⟩ ⟨18, 32, 0⟩

/-- The type `[S::[T]{}.a.len]int`. -/
def selfArray : TypeExpr :=
  .array (some selfLength) (.named ⟨"int", ⟨33, 36, 0⟩⟩ [] ⟨33, 36, 0⟩) ⟨17, 36, 0⟩

/-- `struct S[T] { a: [S::[T]{}.a.len]int }` -/
def selfStruct : Syntax.StructDef where
  name := ⟨"S", ⟨7, 8, 0⟩⟩
  generics := [⟨"T", ⟨9, 10, 0⟩⟩]
  fields := [⟨⟨"a", ⟨14, 15, 0⟩⟩, selfArray, none, ⟨14, 36, 0⟩⟩]
  span := ⟨0, 38, 0⟩

inductive SelfScope : Context → Prop where
  | declared : SelfScope { templates := ["T"] }
  | opened {c : Context} : SelfScope c → SelfScope (c.openTemplate [("T", .generic "T")])

theorem SelfScope.block {c : Context} (h : SelfScope c) : c.block = none := by
  cases h <;> rfl

theorem SelfScope.unbound {c : Context} (h : SelfScope c) {name : String} (hn : name ≠ "T") :
    c.bindings.lookup? name = none ∧ c.templates.contains name = false := by
  induction h with
  | declared => exact ⟨rfl, by simp [hn]⟩
  | @opened c _ ih =>
    have hne : ("T" == name) = false := beq_false_of_ne hn.symm
    have hpush : (c.bindings.pushFrame [("T", .generic "T")]).lookup? name =
        c.bindings.lookup? name := by
      simp [Bindings.lookup?, Bindings.pushFrame, hne]
    exact ⟨hpush.trans ih.1, rfl⟩

/-- The table of the package. -/
def selfPackage : Package where
  structs := #[{ name := "S", file := 0, decl := selfStruct, generics := ["T"] }]
  names := [("S", .struct 0)]

section SelfSized

variable {o : Options} {n : Nat} {c : Context}

/-- A name that is not bound is that of a primitive or of a definition. -/
theorem answers_unbound {env : Env} {name : Syntax.Ident} {ts : List TypeExpr} {span : Span}
    {P : Option Ty → Prop} (hc : SelfScope env.context) (hn : name.name ≠ "T")
    (hbuiltin : builtinType? name.name = none)
    (h : ((match Category.ofName? name.name with
      | some primitive => plain (.base primitive) ts span
      | none => resolveDefined name ts span : Check (Option Ty)) env).Answers P) :
    (resolveNamed name ts span env).Answers P := by
  have hlocal : (useLocalAlias name.name env).Answers (· = none) := by
    refine answers_context ?_
    rw [hc.block]
    exact answers_pure rfl
  obtain ⟨hlookup, htemplates⟩ := hc.unbound hn
  refine answers_context ?_
  dsimp only
  rw [hlookup, htemplates]
  cases hprimitive : Category.ofName? name.name with
  | some primitive =>
    rw [hprimitive] at h
    exact h
  | none =>
    rw [hprimitive] at h
    refine answers_bind hlocal fun o ho => ?_
    subst ho
    rw [hbuiltin]
    exact h

theorem answers_tooDeep {P : α → Prop} : (Step.tooDeep : Step α).Answers P := fun _ _ _ h => by cases h

theorem answers_int (hc : SelfScope c) (span : Span) :
    (resolveAt selfPackage o n c (.named ⟨"int", span⟩ [] span)).Answers (· = some (.base .int)) := by
  cases n with
  | zero => exact answers_tooDeep
  | succ n => exact answers_unbound hc (show "int" ≠ "T" by decide) rfl (answers_pure rfl)

theorem answers_parameter (hc : SelfScope c) (span : Span) :
    (resolveAt selfPackage o n c (.named ⟨"T", span⟩ [] span)).Answers
      (· = some (.generic "T")) := by
  cases n with
  | zero => exact answers_tooDeep
  | succ n =>
    refine answers_context ?_
    cases hc with
    | declared => exact answers_pure rfl
    | opened _ => exact answers_pure rfl

theorem answers_struct (hc : SelfScope c) (s t : Span) (span : Span) :
    (resolveNamed ⟨"S", s⟩ [.named ⟨"T", t⟩ [] t] span
      ⟨selfPackage, o, c, resolveAt selfPackage o n, evalAt selfPackage o n⟩).Answers
      (· = some (.struct 0 "S" [.generic "T"])) := by
  refine answers_unbound hc (show "S" ≠ "T" by decide) rfl ?_
  have hargs : (resolveArgs [.named ⟨"T", t⟩ [] t]
      ⟨selfPackage, o, c, resolveAt selfPackage o n, evalAt selfPackage o n⟩).Answers
      (· = some [.generic "T"]) := by
    refine answers_bind (P := (· = some [.generic "T"])) ?_ fun types htypes => ?_
    · refine answers_bind (answers_parameter hc t) fun first hfirst => ?_
      subst hfirst
      exact fun _ _ _ h => by cases h; rfl
    · subst htypes
      exact fun _ _ _ h => by cases h; rfl
  refine answers_package ?_
  refine answers_package ?_
  refine answers_bind hargs fun types htypes => ?_
  subst htypes
  exact fun _ _ _ h => by cases h; rfl

/-- Nothing is answered. -/
abbrev Never (x : Step α) : Prop := x.Answers fun _ => False

theorem never_bind {env : Env} {x : Check α} {f : α → Check β} (h : Never (x env)) :
    Never ((x >>= f) env) :=
  answers_bind h fun _ h => h.elim

/-- A size that reads the length of the field needs the type of the field. -/
theorem never_self (n : Nat) :
    (∀ c, SelfScope c → Never (resolveAt selfPackage o n c selfArray)) ∧
    (∀ c, SelfScope c → Never (evalAt selfPackage o n c selfLength none)) ∧
    (∀ c, SelfScope c → Never (evalAt selfPackage o n c selfMember none)) ∧
    (∀ c, SelfScope c → Never (evalAt selfPackage o n c selfLiteral none)) := by
  induction n with
  | zero => exact ⟨fun _ _ => answers_tooDeep, fun _ _ => answers_tooDeep, fun _ _ => answers_tooDeep,
      fun _ _ => answers_tooDeep⟩
  | succ n ih =>
    obtain ⟨harray, hlength, hmember, hliteral⟩ := ih
    refine ⟨fun c hc => ?_, fun c hc => ?_, fun c hc => ?_, fun c hc => ?_⟩
    · refine answers_bind (answers_int hc _) fun t ht => ?_
      subst ht
      exact never_bind (never_bind (never_bind (hlength c hc)))
    · exact never_bind (never_bind (hmember c hc))
    · exact never_bind (never_bind (hliteral c hc))
    · refine never_bind (answers_bind (answers_struct hc _ _ _) fun t ht => ?_)
      subst ht
      refine never_bind (answers_package ?_)
      exact answers_quietly (never_bind (never_bind (harray _ (.opened hc))))

end SelfSized

end JaneCheck.Check

namespace JaneCheck.Report

open Check

/-- The size of the field is the length of the field. -/
def selfSized : Source := ⟨"main.jn", "struct S[T] { a: [S::[T]{}.a.len]int }"⟩

theorem parse_selfSized : parseAll [selfSized] = [.ok [.struct selfStruct]] := by cbv

theorem collect_selfSized :
    (Package.collect ((parseAll [selfSized]).map programOf)).package = selfPackage := by
  rw [parse_selfSized]
  rfl

theorem resolveTypes_selfSized (setup : Package.Setup) :
    selfPackage.resolveTypes setup 1 = none := by
  have hfields : Never (selfPackage.fileTypes 0 ⟨selfPackage, setup.options, {},
      resolveAt selfPackage setup.options setup.depth,
      evalAt selfPackage setup.options setup.depth⟩) := by
    have harray := (never_self (o := setup.options) setup.depth).1 _ .declared
    exact never_bind (never_bind (never_bind (never_bind (never_bind harray))))
  have hfind : selfPackage.find setup {} (selfPackage.fileTypes 0) = none := by
    cases h : Check.run selfPackage setup.options setup.depth {} (selfPackage.fileTypes 0) {} with
    | none => simp [Package.find, start_eq, h]
    | some r => exact (hfields h).elim
  have hrange : List.range 1 = [0] := rfl
  simp [Package.resolveTypes, hrange, hfind]

theorem checkCollected_selfSized (setup : Package.Setup) :
    checkCollected setup 1 (Package.collect ((parseAll [selfSized]).map programOf)) = none := by
  have haliases : selfPackage.resolveAliases setup = some (selfPackage, {}) := rfl
  have henums : selfPackage.resolveEnums setup = some (selfPackage, {}) := rfl
  unfold checkCollected
  rw [collect_selfSized]
  simp only [haliases, henums, resolveTypes_selfSized, Option.bind_eq_bind, Option.bind_some,
    Option.bind_none]

/-- The file parses, but no number of levels is enough for the type of its
field, nor for the check of the package. -/
theorem selfSized_never_ends :
    parseAll [selfSized] = [.ok [.struct selfStruct]] ∧
    (∀ o n s, (resolveAt (Package.collect [[.struct selfStruct]]).package o n
      { templates := ["T"] } selfArray).run s = none) ∧
    (∀ setup, checkCollected setup 1 (Package.collect [[.struct selfStruct]]) = none) ∧
    check {} [selfSized] = none := by
  refine ⟨parse_selfSized, fun o n s => ?_, fun setup => ?_, ?_⟩
  · have hnever := (never_self (o := o) n).1 _ .declared
    rcases hrun : (resolveAt selfPackage o n { templates := ["T"] } selfArray).run s with _ | r
    · exact hrun
    · exact (hnever hrun).elim
  · have hnone := checkCollected_selfSized setup
    rw [parse_selfSized] at hnone
    exact hnone
  · unfold check
    simp only [List.length_singleton, merge_parsed, checkCollected_selfSized, Option.bind_eq_bind,
      Option.bind_none]

end JaneCheck.Report
