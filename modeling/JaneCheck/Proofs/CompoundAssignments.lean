import JaneCheck.Check.Statement
import JaneCheck.Proofs.Levels.Resolve

/-!
# Compound assignments

Of a compound assignment with several targets only the first target and the first
value are looked at: it does what the assignment of this pair alone does. So where
nothing is reported the first target is a place that may be written, and it takes the
result of the operator (`compound_checks_first`). The pairs after it are not evaluated
(`secondPair_unchecked`).
-/

namespace JaneCheck.Check

open Syntax (BinOp Expr)

/-- Nothing was reported and nothing void read on the way from `s` to `s'`. -/
structure State.Still (s s' : State) : Prop where
  diags : s'.diags = s.diags
  voidReads : s'.voidReads = s.voidReads

/-- The target is a place that may be written, the operator is for its value and the other
one, and the place takes the result, unless the result is void. -/
def Accumulates (p : Package) (o : Options) (n : Nat) (c : Context) (s : State) (target : Expr)
    (op : BinOp) (value : Expr) : Prop :=
  ∃ t s₁ v s2 result, run p o n c (eval target none) s = some (t, s₁) ∧
    run p o n c (eval value (some t.type)) s₁ = some (v, s2) ∧
    t.isLvalue = true ∧ t.isConst = false ∧ t.mutable = true ∧
    Operator.solve ⟨p.definitions, o.wordSize⟩ t op v = (result, []) ∧
    (result.type.isVoid = false →
      Assign.check { defs := p.definitions, wordSize := o.wordSize } t.type result = [])

section Still

variable {s s₁ s' : State}

theorem State.Still.split (h : s.Still s') (hle : s.Le s₁) (hle' : s₁.Le s') :
    s.Still s₁ ∧ s₁.Still s' := by
  have hdiags : s₁.diags = s.diags := by
    have hlast := hle'.diags
    rw [h.diags] at hlast
    exact Array.toList_inj.mp (hlast.eq_of_length_le hle.diags.length_le)
  have hreads : s₁.voidReads = s.voidReads :=
    Nat.le_antisymm (h.voidReads ▸ hle'.voidReads) hle.voidReads
  exact ⟨⟨hdiags, hreads⟩, ⟨h.diags.trans hdiags.symm, h.voidReads.trans hreads.symm⟩⟩

variable {env : Env}

theorem State.Still.bind (h : s.Still s') {x : Check α} {f : α → Check β} {b : β}
    (hrun : ((x >>= f) env).run s = some (b, s')) :
    ∃ a s₁, (x env).run s = some (a, s₁) ∧ s.Still s₁ ∧ (f a env).run s₁ = some (b, s') ∧ s₁.Still s' := by
  obtain ⟨a, s₁, hx, hf⟩ := run_bind.mp hrun
  obtain ⟨hfirst, hrest⟩ := h.split (Step.le _ hx) (Step.le _ hf)
  exact ⟨a, s₁, hx, hfirst, hf, hrest⟩

theorem State.Still.report (h : s.Still s') {q : Problem} {span : Span} {x : Unit → Check α} {a : α}
    (hrun : ((Check.report q span >>= x) env).run s = some (a, s')) : False := by
  obtain ⟨_, s₁, hreport, hfirst, -⟩ := h.bind hrun
  cases hreport
  simpa using congrArg Array.size hfirst.diags

theorem State.Still.evalChecked (h : s.Still s') {e : Expr} {hint : Option Ty} {r : Option Value}
    (hrun : (evalChecked e hint env).run s = some (r, s')) :
    ∃ v, r = some v ∧ (eval e hint env).run s = some (v, s') := by
  obtain ⟨v, heval, rfl⟩ := run_evalChecked.mp hrun
  exact ⟨v, by simp [h.diags, h.voidReads], heval⟩

theorem State.Still.checkLvalue (h : s.Still s') {v : Value} {span : Span} {ok : Bool}
    (hrun : (checkLvalue v span env).run s = some (ok, s')) :
    s' = s ∧ ok = true ∧ v.isLvalue = true ∧ v.isConst = false ∧ v.mutable = true := by
  unfold Check.checkLvalue at hrun
  split at hrun
  · exact (h.report hrun).elim
  split at hrun
  · exact (h.report hrun).elim
  split at hrun
  · exact (h.report hrun).elim
  · cases hrun
    simp_all

end Still

theorem checkCounts_self (n : Nat) (span : Span) : checkCounts n n span = pure true := by
  simp [checkCounts]

theorem checkCompound_eq_first {targets values : List Expr} (h : targets.length = values.length)
    (target value : Expr) (op : BinOp) (span : Span) :
    checkCompound (target :: targets) op (value :: values) span =
      checkCompound [target] op [value] span := by
  unfold checkCompound
  simp only [List.length_cons, h, checkCounts_self]

section Rules

variable {env : Env} {s s' : State} (h : s.Still s')

include h

theorem State.Still.no_problems {qs : List Problem} {span : Span}
    (hs' : s' = { s with diags := s.diags ++ qs.map fun q => Diagnostic.mk q span }) : qs = [] := by
  subst hs'
  have hdiags := congrArg Array.toList h.diags
  simpa using hdiags

theorem State.Still.solve {l r v : Value} {op : BinOp} {span : Span}
    (hrun : (Check.solve l op r span env).run s = some (v, s')) :
    Operator.solve ⟨env.package.definitions, env.options.wordSize⟩ l op r = (v, []) := by
  generalize hout : Operator.solve ⟨env.package.definitions, env.options.wordSize⟩ l op r = out
  have hsame : (Check.solve l op r span env).run s = some (out.1,
      { s with diags := s.diags ++ out.2.map fun q => Diagnostic.mk q span }) := by
    subst hout
    rfl
  obtain ⟨hv, hs'⟩ := Prod.mk.inj (Option.some.inj (hrun.symm.trans hsame))
  exact Prod.ext hv.symm (h.no_problems hs')

theorem State.Still.assign {t : Ty} {v : Value} {span : Span} {ok : Bool}
    (hrun : (Check.assign t v span env).run s = some (ok, s')) :
    Assign.check { defs := env.package.definitions, wordSize := env.options.wordSize } t v = [] := by
  replace hrun : (assignBy { defs := env.package.definitions, wordSize := env.options.wordSize } t v
    span env).run s = some (ok, s') := hrun
  rw [assignBy_eq] at hrun
  exact h.no_problems (Prod.mk.inj (Option.some.inj hrun)).2.symm

end Rules

theorem accumulates_of_run {p : Package} {o : Options} {n : Nat} {c : Context} {s s' : State}
    {target value : Expr} {op : BinOp} {span : Span}
    (hrun : run p o n c (checkCompound [target] op [value] span) s = some ((), s'))
    (hstill : s.Still s') : Accumulates p o n c s target op value := by
  obtain ⟨_, _, ⟨⟩, -, hrun, hstill⟩ := hstill.bind hrun
  obtain ⟨_, s₁, hchecked, hstill1, hrun, hstill⟩ := hstill.bind hrun
  obtain ⟨t, rfl, htarget⟩ := hstill1.evalChecked hchecked
  obtain ⟨_, s2, hchecked, hstill2, hrun, hstill⟩ := hstill.bind hrun
  obtain ⟨v, rfl, hvalue⟩ := hstill2.evalChecked hchecked
  obtain ⟨_, s3, hchecked, hstill3, hrun, hstill⟩ := hstill.bind hrun
  obtain ⟨hsame, rfl, hplace, hconst, hmutable⟩ := hstill3.checkLvalue hchecked
  obtain ⟨result, s4, hsolve, hstill4, hrun, hstill⟩ := hstill.bind hrun
  have hsolved := hstill4.solve hsolve
  refine ⟨t, s₁, v, s2, result, htarget, hvalue, hplace, hconst, hmutable, hsolved, fun hvoid => ?_⟩
  rw [if_pos (by simpa using hvoid)] at hrun
  obtain ⟨_, _, hassign, hstill, -⟩ :=
    hstill.bind (x := assign t.type result value.span) (f := fun _ => pure ()) hrun
  have hfits := hstill.assign hassign
  exact hfits

/-- A compound assignment with as many values as targets does what that of the first pair
does; where it finds nothing, the first target takes the result of the operator. -/
theorem compound_checks_first (p : Package) (o : Options) (n : Nat) (c : Context) (s : State)
    (target value : Expr) (targets values : List Expr) (op : BinOp) (span : Span)
    (hcount : targets.length = values.length) :
    run p o n c (checkCompound (target :: targets) op (value :: values) span) s =
        run p o n c (checkCompound [target] op [value] span) s ∧
      ∀ s', run p o n c (checkCompound (target :: targets) op (value :: values) span) s =
          some ((), s') → s.Still s' → Accumulates p o n c s target op value := by
  have hfirst := checkCompound_eq_first hcount target value op span
  rw [hfirst]
  exact ⟨rfl, fun s' hrun hstill => accumulates_of_run hrun hstill⟩

/-! ## Two counters -/

/-- A package with the globals `a` and `b`. -/
def counters : Package := { names := [("a", .global 0), ("b", .global 1)] }

/-- Both are numbers that may be written. -/
def counting : State :=
  { globalCache := [(0, .place (.base .int) true), (1, .place (.base .int) true)] }

def counter (name : String) : Expr := .ident ⟨name, default⟩

/-- The assignment `a, b += 1, "x"`. -/
def countBoth : Check Unit :=
  checkCompound [counter "a", counter "b"] .add
    [.literal (.int 1) default, .literal (.text "x") default] default

set_option maxRecDepth 100000 in
theorem countBoth_still : ∃ s', run counters {} 1 {} countBoth counting = some ((), s') ∧
    counting.Still s' := by
  have hfindings : (run counters {} 1 {} countBoth counting).map (fun r =>
      (r.2.diags.size, r.2.voidReads)) = some (0, 0) := by
    decide +kernel
  obtain ⟨⟨_, s'⟩, hrun, hfound⟩ := Option.map_eq_some_iff.mp hfindings
  obtain ⟨hdiags, hreads⟩ := Prod.mk.inj hfound
  exact ⟨s', hrun, Array.eq_empty_of_size_eq_zero hdiags, hreads⟩

theorem compound_checks_first_counters :
    Accumulates counters {} 1 {} counting (counter "a") .add (.literal (.int 1) default) := by
  obtain ⟨s', hrun, hstill⟩ := countBoth_still
  exact (compound_checks_first counters {} 1 {} counting (counter "a") (.literal (.int 1) default)
    [counter "b"] [.literal (.text "x") default] .add default rfl).2 s' hrun hstill

set_option maxRecDepth 100000 in
/-- Nothing is found in `a, b += 1, "x"`, though a text cannot be added to a number. -/
theorem secondPair_unchecked :
    (∃ s', run counters {} 1 {} countBoth counting = some ((), s') ∧ counting.Still s') ∧
      ¬Accumulates counters {} 1 {} counting (counter "b") .add (.literal (.text "x") default) := by
  refine ⟨countBoth_still, ?_⟩
  rintro ⟨t, s₁, v, s₂, result, htarget, hvalue, -, -, -, hsolve, -⟩
  have hrefused : ((run counters {} 1 {} (eval (counter "b") none) counting).bind fun r =>
      (run counters {} 1 {} (eval (.literal (.text "x") default) (some r.1.type)) r.2).map fun r' =>
        (Operator.solve ⟨counters.definitions, .w64⟩ r.1 .add r'.1).2.isEmpty) = some false := by
    decide +kernel
  simp [htarget, hvalue, hsolve] at hrefused

end JaneCheck.Check
