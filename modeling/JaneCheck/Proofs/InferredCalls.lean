import JaneCheck.Proofs.UnsafeCalls
import JaneCheck.Proofs.Yields

/-!
# Calls with inferred type arguments

Where type arguments are inferred, the arguments of a call are evaluated before
the types of their parameters are known. What is expected of an expression only
matters to array literals (`run_evalAny_hint`), so all others have the same value
afterwards. `leads_inferCall` collects what passed when such a call passed: the
signature of the instance, the values of the arguments and the parameters that
they are bound to.
-/

namespace JaneCheck.Check

open Demand (covered_lax covers_lax)
open Syntax (Arg Expr Ident TypeExpr)

variable {p : Package} {o : Options} {n : Nat} {c : Context} {s0 s s' : State} {env : Env}

/-! ## Expected types -/

theorem leads_newError {q : Problem} {span : Span} (hle : s0.Le s)
    (hq : (Diagnostic.mk q span).isError = true) :
    Leads (.passed s0) env s (report q span) fun _ _ => False := by
  intro u s1 hrun hpassed
  have hadded := State.mem_added_right hle ((report q span env).le hrun) (mem_added_report hrun)
  rw [hpassed.clean _ hadded] at hq
  cases hq

theorem leads_eval {e : Expr} {hint : Option Ty} (hle : s0.Le s) :
    Leads (.passed s0) env s (eval e hint) fun v s' =>
      (evalAny e hint env).run s = some (v, s') ∧ v.isType = false := by
  refine .after fun v s1 hrun => ?_
  have hle1 : s0.Le s1 := hle.trans ((evalAny e hint env).le hrun)
  cases htype : v.isType with
  | true => exact .stop (leads_newError hle1 rfl)
  | false => exact .pure ⟨hrun, htype⟩

/-- An array literal stands where a slice or an array is expected. -/
def Guides (t : Ty) (e : Expr) : Prop :=
  (t.isSlice || t.isArray) = true ∧ ∃ elements span, e = .array elements span

theorem leads_arrayLiteral (elements : List Expr) (span : Span) :
    Leads .any env s (arrayLiteral elements none span) fun v _ => ∃ t, v = .ofType (.slice t) :=
  .after fun _ _ _ => .pure ⟨_, rfl⟩

/-- No unary operator is for an array literal. -/
theorem leads_unary_array {op : Syntax.UnOp} {elements : List Expr} {aspan span : Span}
    (hle : s0.Le s) :
    Leads (.passed s0) (envAt p o n c) s (unary op (.array elements aspan) none span)
      fun _ _ => False := by
  have hvalue : Leads (.passed s0) (envAt p o n c) s (eval (.array elements aspan) none) fun v _ =>
      ∃ t, v = .ofType (.slice t) := by
    intro v s1 hrun hpassed
    obtain ⟨hany, -⟩ := leads_eval hle hrun hpassed
    have harray : Leads .any (envAt p o n c) s (evalAny (.array elements aspan) none) fun v _ =>
        ∃ t, v = .ofType (.slice t) :=
      leads_evalAny fun _ _ => leads_evalStep (leads_arrayLiteral elements aspan)
    exact harray hany trivial
  unfold unary
  rw [ite_self]
  refine .bind hvalue fun v s1 hrun hv => ?_
  obtain ⟨t, rfl⟩ := hv
  have hle1 : s0.Le s1 := hle.trans ((eval _ none (envAt p o n c)).le hrun)
  have hnone : unaryValue? op (.ofType (.slice t)) = none := by
    cases op <;> rfl
  rw [if_neg (show ¬(Value.ofType (.slice t)).type.isVoid = true from Bool.false_ne_true), hnone]
  exact .stop (leads_newError hle1 rfl)

/-- What is expected matters to array literals alone. -/
theorem run_evalAny_hint {e : Expr} {t : Ty} {v : Value} (he : ¬Guides t e)
    (h : run p o n c (evalAny e none) s = some (v, s')) (hpassed : s.Passed s') :
    run p o n c (evalAny e (some t)) s = some (v, s') := by
  induction n generalizing e s v s' with
  | zero => cases h
  | succ n ih =>
    replace h : (evalStep e none (envAt p o n c)).run s = some (v, s') := h
    show (evalStep e (some t) (envAt p o n c)).run s = some (v, s')
    obtain ⟨w, s1, hvalue, hrest⟩ := run_bind.mp h
    refine run_bind.mpr ⟨w, s1, ?_, hrest⟩
    have hpassed1 : s.Passed s1 :=
      (Guard.passed s).of_le (((annotate e.span w >>= fun _ => pure w) _).le hrest) hpassed
    cases e with
    | array elements span =>
      have hkind : (t.isSlice || t.isArray) = false :=
        Bool.eq_false_iff.mpr fun h => he ⟨h, elements, span, rfl⟩
      show (arrayLiteral elements (some t) span (envAt p o n c)).run s = some (w, s1)
      unfold arrayLiteral
      rw [Option.filter_some, if_neg (by simp [hkind])]
      exact hvalue
    | unary op e span =>
      replace hvalue : (unary op e none span (envAt p o n c)).run s = some (w, s1) := hvalue
      show (unary op e (some t) span (envAt p o n c)).run s = some (w, s1)
      cases hop : op == .deref || op == .addressOf with
      | true =>
        unfold unary at hvalue ⊢
        rw [hop] at hvalue ⊢
        exact hvalue
      | false =>
        have he' : ¬Guides t e := by
          rintro ⟨-, elements, aspan, rfl⟩
          exact leads_unary_array (.refl s) hvalue hpassed1
        unfold unary at hvalue ⊢
        rw [hop] at hvalue ⊢
        obtain ⟨x, s2, hx, hresult⟩ := run_bind.mp hvalue
        obtain ⟨y, s3, hy, htype⟩ := run_bind.mp hx
        have hle := (Step.le _ htype).trans (Step.le _ hresult)
        have hpassed3 : s.Passed s3 := (Guard.passed s).of_le hle hpassed1
        exact run_bind.mpr ⟨x, s2, run_bind.mpr ⟨y, s3, ih he' hy hpassed3, htype⟩, hresult⟩
    | _ => exact hvalue

/-! ## Array literals -/

/-- What is expected suits the expression. Either it is no array literal where a
slice or an array is expected; or it is one of that type, and its first element
fits a slot of its own type. -/
inductive Suits (p : Package) (o : Options) (c : Context) (s : State) : Nat → Ty → Expr → Prop
  | other {n t e} (h : ¬Guides t e) : Suits p o c s n t e
  | empty {n span} : Suits p o c s n (.slice (.base .any)) (.array [] span)
  | first {n e es span v s1} (hrun : run p o n c (eval e none) s = some (v, s1))
    (hfits : Assign.check { defs := p.definitions, wordSize := o.wordSize } v.type v = [])
    (h : Suits p o c s n v.type e) : Suits p o c s (n + 1) (.slice v.type) (.array (e :: es) span)

section Literals

theorem passes_assign {t : Ty} {v : Value} (span : Span)
    (h : Assign.check { defs := p.definitions, wordSize := o.wordSize } t v = []) :
    Passes (envAt p o n c) s (assign t v span) true := by
  have hsetting : Passes (envAt p o n c) s setting ⟨p.definitions, o.wordSize⟩ :=
    ⟨{}, Output.clean_of_nil rfl, fun t ht => ⟨t, rfl, .refl t, ht⟩⟩
  refine .bind hsetting ?_
  unfold Passes Yields
  rw [assignBy_eq, h]
  exact Passes.bind ⟨{}, Output.clean_of_nil rfl, yields_update {} (fun _ => by constructor <;> simp) fun _ => rfl⟩ (.pure true)

theorem coreProblems_void {k : Assign} {given : Ty} (h : given.isVoid = true) (target core : Ty) :
    k.coreProblems target core given = [Assign.mismatch target given] := by
  induction core using Ty.category.induct with
  | case3 t ih => exact ih
  | case4 t ih => exact ih
  | _ => simp [Assign.coreProblems, Assign.verdict, h]

theorem isVoid_of_check {k : Assign} {t : Ty} {v : Value} (h : k.check t v = []) :
    v.type.isVoid = false := by
  refine Bool.eq_false_iff.mpr fun hvoid => ?_
  have hnumber : v.type.isNumber = false := by
    have hcategory : v.type.category = .void := by simpa [Ty.isVoid] using hvoid
    unfold Ty.isNumber
    rw [hcategory]
    exact Bool.and_false _
  have hrange : Assign.inRange? k.wordSize t v = none := by
    cases hconst : v.constant <;> simp [Assign.inRange?, hconst, hnumber]
  unfold Assign.check at h
  split at h
  · cases h
  · rw [hrange] at h
    simp [Assign.typeProblems, coreProblems_void hvoid] at h

theorem leads_checked {env : Env} {G : Guard} (e : Expr) (hint : Option Ty) :
    Leads G env s (evalChecked e hint) fun r s' => ∃ v, (eval e hint env).run s = some (v, s') ∧
      (v.type.isVoid = false → r = some v) := by
  intro r s' h _
  obtain ⟨v, hrun, rfl⟩ := run_evalChecked.mp h
  exact ⟨v, hrun, fun hvoid => by simp [hvoid]⟩

theorem leads_arrayElements {env : Env} {G : Guard} (es : List Expr) (t : Ty) :
    Leads G env s (arrayElements es (some t)) fun r _ => r = some t := by
  induction es generalizing s with
  | nil => exact .pure rfl
  | cons e es ih =>
    refine .after fun found s1 _ => ?_
    cases found with
    | none => exact ih
    | some v => exact .after fun _ _ _ => ih

theorem leads_arrayElements_first {e : Expr} {es : List Expr} {v : Value} {s1 : State}
    (hrun : run p o n c (eval e none) s = some (v, s1)) (hvoid : v.type.isVoid = false) :
    Leads (.passed s) (envAt p o n c) s (arrayElements (e :: es) none) fun r _ =>
      r = some v.type ∧ Passes (envAt p o n c) s (eval e none) v ∧
        Passes (envAt p o n c) s (arrayElements es (some v.type)) (some v.type) := by
  have hfirst : Leads (.passed s) (envAt p o n c) s (evalChecked e none) fun r s1 => r = some v ∧
      s1.view = s.view ∧ Passes (envAt p o n c) s (eval e none) v := by
    intro r s2 hchecked hpassed
    obtain ⟨w, hrun', hr⟩ := leads_checked e none hchecked hpassed
    cases hrun.symm.trans hrun'
    exact ⟨hr hvoid, leads_passes (asks_eval trivial (covered_lax none)) (.refl s) hrun hpassed⟩
  refine .bind hfirst ?_
  rintro r s2 hchecked ⟨rfl, hview, hpasses⟩
  have hle2 : s.Le s2 := Step.le _ hchecked
  dsimp only
  split
  · exact .stop (leads_newError hle2 rfl)
  · intro r s3 hrest hpassed
    have hr : r = some v.type := leads_arrayElements es v.type hrest hpassed
    have hasks : Asks (.any p) c (arrayElements es (some v.type)) :=
      asks_arrayElements (fun _ _ => trivial) (covered_lax _)
    obtain ⟨-, hrest⟩ := leads_passes hasks hle2 hrest hpassed
    rw [hr] at hrest
    exact ⟨hr, hpasses, hrest.congr hview.symm⟩

/-- The first element of a literal and the others pass where the type of the
first is expected. -/
theorem passes_arrayElements {e : Expr} {es : List Expr} {v : Value} {t : Ty}
    (hfirst : Passes (envAt p o n c) s (eval e (some t)) v)
    (hfits : Assign.check { defs := p.definitions, wordSize := o.wordSize } t v = [])
    (hrest : Passes (envAt p o n c) s (arrayElements es (some t)) (some t)) :
    Passes (envAt p o n c) s (arrayElements (e :: es) (some t)) (some t) := by
  have hassign : Passes (envAt p o n c) s (discard (assign t v e.span)) () :=
    Passes.bind (f := fun _ => pure ()) (passes_assign e.span hfits) (.pure ())
  exact hfirst.evalChecked hrest (.bind hassign hrest)

end Literals

theorem passes_unguided {e : Expr} {t : Ty} {v : Value} (hguides : ¬Guides t e)
    (h : Passes (envAt p o n c) s (eval e none) v) :
    Passes (envAt p o n c) s (eval e (some t)) v := by
  obtain ⟨s1, hrun, hpassed⟩ := h.exists_run
  obtain ⟨hany, htype⟩ := leads_eval (.refl s) hrun hpassed
  have heval : run p o n c (eval e (some t)) s = some (v, s1) := by
    refine run_bind.mpr ⟨v, s1, run_evalAny_hint hguides hany hpassed, ?_⟩
    rw [htype]
    rfl
  exact (leads_passes (asks_eval trivial (covered_lax _)) (.refl s) heval hpassed).2

/-- What suits an expression does not change its value. -/
theorem Passes.hint {e : Expr} {t : Ty} {v : Value} (hsuits : Suits p o c s n t e)
    (h : Passes (envAt p o n c) s (eval e none) v) :
    Passes (envAt p o n c) s (eval e (some t)) v := by
  induction hsuits generalizing v with
  | other hguides => exact passes_unguided hguides h
  | @empty n span =>
    cases n with
    | zero =>
      obtain ⟨s1, hrun, -⟩ := h.exists_run
      cases hrun
    | succ n => exact h
  | @first n e es span w s1 hrun hfits _ ih =>
    obtain ⟨s2, heval, hpassed⟩ := h.exists_run
    obtain ⟨hany, -⟩ := leads_eval (.refl s) heval hpassed
    obtain ⟨x, s3, hliteral, hrest⟩ := run_bind.mp (show (evalStep (.array (e :: es) span) none
      (envAt p o n c)).run s = some (v, s2) from hany)
    obtain ⟨r, s4, helements, hvalue⟩ := run_bind.mp hliteral
    have hpassed4 : s.Passed s4 :=
      (Guard.passed s).of_le ((Step.le _ hvalue).trans (Step.le _ hrest)) hpassed
    obtain ⟨rfl, hfirst, hothers⟩ := leads_arrayElements_first hrun (isVoid_of_check hfits)
      helements hpassed4
    cases hvalue
    obtain ⟨u, s5, -, hpure⟩ := run_bind.mp hrest
    cases hpure
    have helements' := passes_arrayElements (ih hfirst) hfits hothers
    have hliteral' : Passes (envAt p o n c) s (exprValue (.array (e :: es) span)
        (some (.slice w.type))) (.ofType (.slice w.type)) := helements'.bind (.pure _)
    exact hliteral'.evalAny.bind (.pure _)


/-! ## What is evaluated for the parameters -/

section Targets

variable {args : List Arg}

/-- The arguments of a call that are evaluated: the place of each, the type that
its parameter expects and the expression. -/
def targets (sig : FnSig) (args : List Arg) : List (Nat × Ty × Expr) :=
  (sig.params.zip (pair (slots sig.params) args).bound).flatMap fun (param, bound) =>
    received args param bound

/-- A parameter received arguments of the call. Which ones does not depend on its type. -/
theorem mem_received {param : Param Ty} {bound : Bound} {r : Nat × Ty × Expr}
    (h : r ∈ received args param bound) :
    (∃ arg, args[r.1]? = some arg ∧ (r.2.2 = arg.value ∨ r.2.2 = spreadOperand arg.value)) ∧
      ∀ param', ∃ r' ∈ received args param' bound, r'.1 = r.1 ∧ r'.2.2 = r.2.2 := by
  cases bound with
  | empty => cases h
  | single i =>
    obtain ⟨arg, harg, rfl⟩ := Option.map_eq_some_iff.mp (Option.mem_toList.mp h)
    refine ⟨⟨arg, harg, .inl rfl⟩, fun param' => ?_⟩
    exact ⟨(i, param'.type, arg.value), by simp [received, harg], rfl, rfl⟩
  | spread i =>
    obtain ⟨arg, harg, rfl⟩ := Option.map_eq_some_iff.mp (Option.mem_toList.mp h)
    refine ⟨⟨arg, harg, .inr rfl⟩, fun param' => ?_⟩
    exact ⟨(i, param'.type, spreadOperand arg.value), by simp [received, harg], rfl, rfl⟩
  | many is =>
    obtain ⟨i, hmem, hi⟩ := List.mem_filterMap.mp h
    obtain ⟨arg, harg, rfl⟩ := Option.map_eq_some_iff.mp hi
    refine ⟨⟨arg, harg, .inl rfl⟩, fun param' => ?_⟩
    refine ⟨(i, elementType param'.type, arg.value), ?_, rfl, rfl⟩
    exact List.mem_filterMap.mpr ⟨i, hmem, by rw [harg]; rfl⟩

theorem exists_mem_zip {as as' : List α} {bs : List β} {a : α} {b : β}
    (hlength : as'.length = as.length) (h : (a, b) ∈ as.zip bs) : ∃ a', (a', b) ∈ as'.zip bs := by
  obtain ⟨i, hi⟩ := List.mem_iff_getElem?.mp h
  obtain ⟨ha, hb⟩ := List.getElem?_zip_eq_some.mp hi
  have hlt : i < as'.length := hlength ▸ (List.getElem?_eq_some_iff.mp ha).1
  exact ⟨as'[i], List.mem_iff_getElem?.mpr
    ⟨i, List.getElem?_zip_eq_some.mpr ⟨List.getElem?_eq_getElem hlt, hb⟩⟩⟩

/-- Two signatures with the same slots receive the same arguments. -/
theorem exists_target {sig sig' : FnSig} {r : Nat × Ty × Expr}
    (hslots : slots sig'.params = slots sig.params) (h : r ∈ targets sig args) :
    ∃ r' ∈ targets sig' args, r'.1 = r.1 ∧ r'.2.2 = r.2.2 := by
  obtain ⟨⟨param, bound⟩, hmem, hr⟩ := List.mem_flatMap.mp h
  have hlength : sig'.params.length = sig.params.length := by
    simpa [slots] using congrArg List.length hslots
  obtain ⟨param', hmem'⟩ := exists_mem_zip hlength hmem
  obtain ⟨r', hr', hsame⟩ := (mem_received hr).2 param'
  refine ⟨r', List.mem_flatMap.mpr ⟨(param', bound), ?_, hr'⟩, hsame⟩
  rw [hslots]
  exact hmem'

end Targets

/-! ## Inference -/

section Inference

variable {args : List Arg}

theorem leads_spread {e : Expr} {span : Span} (hle : s0.Le s) :
    Leads (.passed s0) (envAt p o n c) s (eval (.spread e span) none) fun _ _ => False := by
  refine .stop (leads_evalAny fun m _ => ?_)
  refine leads_evalStep (.stop (leads_newError hle rfl))

/-- The known values are those of the arguments at their places. -/
def Evaluated (env : Env) (s : State) (args : List Arg) (known : Known) : Prop :=
  ∀ e ∈ known, ∃ arg, args[e.1]? = some arg ∧
    Passes env s (eval (spreadOperand arg.value) none) e.2

/-- An argument was evaluated for this target, and its value is known. -/
def Covers (args : List Arg) (known : Known) (r : Nat × Ty × Expr) : Prop :=
  r.1 ∈ known.map Prod.fst ∧ ∃ arg, args[r.1]? = some arg ∧ r.2.2 = spreadOperand arg.value

theorem Evaluated.congr {env : Env} {t : State} {known : Known} (h : Evaluated env s args known)
    (hview : t.view = s.view) : Evaluated env t args known := by
  intro e he
  obtain ⟨arg, harg, hpasses⟩ := h e he
  exact ⟨arg, harg, hpasses.congr hview⟩

theorem Evaluated.lookup {env : Env} {known : Known} {r : Nat × Ty × Expr}
    (h : Evaluated env s args known) (hr : Covers args known r) :
    ∃ v, known.lookup r.1 = some v ∧ Passes env s (eval r.2.2 none) v := by
  obtain ⟨hkey, arg, harg, hexpr⟩ := hr
  obtain ⟨v, hv⟩ : ∃ v, known.lookup r.1 = some v := by
    rw [← Option.isSome_iff_exists, List.lookup_isSome_iff]
    obtain ⟨e, he, hfst⟩ := List.mem_map.mp hkey
    exact ⟨e, he, by simp [hfst]⟩
  obtain ⟨before, after, hknown, -⟩ := List.lookup_eq_some_iff.mp hv
  have hmem : (r.1, v) ∈ known := by
    rw [hknown]
    exact List.mem_append_right _ List.mem_cons_self
  obtain ⟨arg', harg', hpasses⟩ := h (r.1, v) hmem
  cases harg.symm.trans harg'
  exact ⟨v, hv, hexpr ▸ hpasses⟩

theorem leads_inferArgs {rs : List (Nat × Ty × Expr)} {known : Known}
    {found : Inferred} (hrs : ∀ r ∈ rs, ∃ arg, args[r.1]? = some arg ∧
      (r.2.2 = arg.value ∨ r.2.2 = spreadOperand arg.value)) (hle : s0.Le s)
    (hknown : Evaluated (envAt p o n c) s args known) :
    Leads (.passed s0) (envAt p o n c) s (inferArgs rs known found) fun a _ =>
      Evaluated (envAt p o n c) s args a.1 ∧ (∀ i ∈ known.map Prod.fst, i ∈ a.1.map Prod.fst) ∧
        ∀ r ∈ rs, Covers args a.1 r := by
  induction rs generalizing known found s with
  | nil => exact .pure ⟨hknown, fun _ h => h, by simp⟩
  | cons r rs ih =>
    obtain ⟨i, t, e⟩ := r
    obtain ⟨arg, harg, he⟩ := hrs (i, t, e) List.mem_cons_self
    refine .bind (M := fun v s1 => (s1.view = s.view ∧
      Passes (envAt p o n c) s (eval e none) v) ∧ e = spreadOperand arg.value) ?_ ?_
    · intro v s1 hrun hpassed
      refine ⟨leads_passes (asks_eval trivial (covered_lax _)) hle hrun hpassed, ?_⟩
      rcases he with rfl | rfl
      · cases hvalue : arg.value with
        | spread e span =>
          rw [hvalue] at hrun
          exact (leads_spread hle hrun hpassed).elim
        | _ => rfl
      · rfl
    · rintro v s1 hrun ⟨⟨hview, hpasses⟩, rfl⟩
      have hle1 : s0.Le s1 := hle.trans ((eval _ none (envAt p o n c)).le hrun)
      have hknown1 : Evaluated (envAt p o n c) s args ((i, v) :: known) := by
        intro e he
        rcases List.mem_cons.mp he with rfl | he
        · exact ⟨arg, harg, hpasses⟩
        · exact hknown e he
      refine (ih (fun r h => hrs r (List.mem_cons_of_mem _ h)) hle1 (hknown1.congr hview)).mono
        fun a s' h => ?_
      obtain ⟨heval, hkeys, hcovers⟩ := h
      refine ⟨heval.congr hview.symm, fun j hj => hkeys j (List.mem_cons_of_mem _ hj), ?_⟩
      intro r hr
      rcases List.mem_cons.mp hr with rfl | hr
      · exact ⟨hkeys i List.mem_cons_self, arg, harg, rfl⟩
      · exact hcovers r hr

theorem asks_targets (sig : FnSig) : AsksFor (.any p) c (inferArgs (targets sig args) [] {})
    fun r => Demand.Covered.By (Demand.lax p) r.2 :=
  asks_inferArgs _ (fun _ _ => trivial) nofun

/-- The arguments infer the type arguments. -/
def Infers (p : Package) (o : Options) (n : Nat) (c : Context) (s : State) (id : FuncId)
    (args : List Arg) (ts : List Ty) : Prop :=
  ∃ known found s1, run p o n c (inferArgs (targets (p.func id).sig args) [] {}) s =
    some ((known, found), s1) ∧ found.ordered? (p.func id).generics = some ts

/-- What is known of a signature after a call without errors whose type
arguments were inferred. -/
structure Accepts (p : Package) (o : Options) (n : Nat) (c : Context) (s : State) (id : FuncId)
    (args : List Arg) (ts : List Ty) (sig : FnSig) : Prop where
  slots : slots (p.func id).sig.params = slots sig.params
  isUnsafe : sig.isUnsafe = (p.func id).decl.isUnsafe
  signature : Passes (envAt p o n c) s (instantiateSig id [] ts) sig
  errors : Passes (envAt p o n c) s (reportErrors (pair (Check.slots sig.params) args).errors) ()
  params : ∃ known span, Evaluated (envAt p o n c) s args known ∧
    (∀ r ∈ targets (p.func id).sig args, Covers args known r) ∧
    ∀ b ∈ sig.params.zip (pair (Check.slots sig.params) args).bound,
      Passes (envAt p o n c) s (bindParam args known span b.1 b.2) ()

/-- The requests that were added on the way from `s` to `s'` have the template
with the types. -/
def State.Requests (s s' : State) (template : Template) (types : List Ty) : Prop :=
  ∃ r ∈ s'.requests.toList.drop s.requests.size, r.template = template ∧ r.types = types

theorem follows_instantiateSig {id : FuncId} {ts : List Ty} (hts : ts ≠ []) :
    Leads .any (envAt p o n c) s (instantiateSig id [] ts) fun sig _ =>
      sig.Follows (p.func id).decl := by
  refine .package ?_
  rw [if_neg (by simpa using hts)]
  refine .inContext fun sig s1 hrun _ => ?_
  obtain ⟨s2, hinner, rfl⟩ := run_quietly.mp hrun
  exact follows_resolveSignature _ hinner trivial

theorem State.Requests.mono {s1 s2 : State} {template : Template} {types : List Ty}
    (h : s1.Requests s2 template types) (hle : s.Le s1) (hle' : s2.Le s') :
    s.Requests s' template types := by
  obtain ⟨r, hr, hsame⟩ := h
  refine ⟨r, ?_, hsame⟩
  obtain ⟨new, hnew⟩ := hle'.requests
  have hsize : s.requests.size ≤ s1.requests.size := by
    simpa using hle.requests.length_le
  rw [← hnew, List.drop_append]
  exact List.mem_append_left _ ((List.drop_sublist_drop_left _ hsize).mem hr)

theorem leads_request {env : Env} {G : Guard} (template : Template) (types : List Ty)
    (span : Span) :
    Leads G env s (request template types span) fun _ s' => s'.view = s.view ∧
      (types.any Ty.hasGeneric = false → s.Requests s' template types) := by
  unfold request
  split
  next h => exact .pure ⟨rfl, fun h' => by rw [h] at h'; cases h'⟩
  · refine leads_update ⟨rfl, fun _ => ⟨⟨template, types, span⟩, ?_, rfl, rfl⟩⟩
    simp [← Array.length_toList]

theorem leads_bindArgs (sig : FnSig) (slots : List Slot) (known : Known)
    (span : Span) (hle : s0.Le s) :
    Leads (.passed s0) (envAt p o n c) s (bindArgs sig args (pair slots args) known span) fun _ _ =>
      Passes (envAt p o n c) s (reportErrors (pair slots args).errors) () ∧
      ∀ b ∈ sig.params.zip (pair slots args).bound,
        Passes (envAt p o n c) s (bindParam args known span b.1 b.2) () := by
  have hreports : Asks (.any p) c (reportErrors (pair slots args).errors) :=
    .listForM fun d hd => asks_report trivial (ofJump_pair d hd)
  refine .bind (leads_passes hreports hle) fun _ s1 hrun herrors => ?_
  have hle1 : s0.Le s1 := hle.trans ((reportErrors _ (envAt p o n c)).le hrun)
  have hasks : ∀ b ∈ sig.params.zip (pair slots args).bound,
      Asks (.any p) c (bindParam args known span b.1 b.2) := fun b _ =>
    asks_bindParam (fun _ _ => trivial) (fun _ _ => ⟨trivial, fun _ _ => trivial⟩) trivial b.2
      (covers_lax _)
  refine (leads_forM hasks hle1).mono fun _ s' h => ⟨herrors.2, fun b hb => ?_⟩
  exact (h.2 b hb).congr herrors.1.symm

theorem slots_of_isInferable {f : FuncInfo} (hf : f.Faithful) (hgeneric : f.isGeneric = true)
    (h : Generic.isInferable f.generics (f.sig.params.map (·.type)) = true) :
    slots f.sig.params = f.decl.slots := by
  refine hf.slots.resolve_left fun hnil => ?_
  rw [hnil] at h
  unfold FuncInfo.isGeneric at hgeneric
  cases hnames : f.generics with
  | nil => simp [hnames] at hgeneric
  | cons name names => simp [hnames, Generic.isInferable, Generic.anyMentions] at h

theorem length_of_ordered {found : Inferred} {names : List String} {ts : List Ty}
    (h : found.ordered? names = some ts) : ts.length = names.length := by
  unfold Inferred.ordered? at h
  induction names generalizing ts with
  | nil =>
    cases h
    rfl
  | cons name names ih =>
    rw [List.mapM_cons] at h
    obtain ⟨t, rest, -, hrest, rfl⟩ := exists_of_both h
    rw [List.length_cons, List.length_cons, ih hrest]

/-- What is checked when the type arguments are known. -/
theorem leads_instance {id : FuncId} {ts : List Ty} (hts : ts ≠ [])
    (slots : List Slot) (known : Known) (span : Span) (hle : s0.Le s) :
    Leads (.passed s0) (envAt p o n c) s (do
      let sig ← instantiateSig id [] ts
      request (.func id) ts span
      bindArgs sig args (pair slots args) known span
      return Value.ofType sig.ret) fun v s' =>
        ∃ sig : FnSig, v = .ofType sig.ret ∧ sig.Follows (p.func id).decl ∧
          Passes (envAt p o n c) s (instantiateSig id [] ts) sig ∧
          Passes (envAt p o n c) s (reportErrors (pair slots args).errors) () ∧
          (∀ b ∈ sig.params.zip (pair slots args).bound,
            Passes (envAt p o n c) s (bindParam args known span b.1 b.2) ()) ∧
          (ts.any Ty.hasGeneric = false → s.Requests s' (.func id) ts) := by
  have hasks : Asks (.any p) c (instantiateSig id [] ts) :=
    asks_instantiateSig allows_any trivial id nofun fun _ _ => covers_lax _
  have hsig := leads_passes (o := o) (n := n) hasks hle
  refine .bind (M := fun sig s1 => (s1.view = s.view ∧
    Passes (envAt p o n c) s (instantiateSig id [] ts) sig) ∧ sig.Follows (p.func id).decl)
    (fun sig s1 hrun hpassed => ⟨hsig hrun hpassed, follows_instantiateSig hts hrun trivial⟩) ?_
  rintro sig s1 hrun1 ⟨⟨hview1, hpasses⟩, hfollows⟩
  have hle1 : s.Le s1 := Step.le _ hrun1
  refine .bind (leads_request (.func id) ts span) ?_
  rintro _ s2 hrun2 ⟨hview2, hrequests⟩
  have hle2 : s1.Le s2 := Step.le _ hrun2
  refine .bind (leads_bindArgs sig _ known span (hle.trans (hle1.trans hle2))) ?_
  rintro _ s3 hrun3 ⟨herrors, hparams⟩
  have hview : s.view = s2.view := (hview2.trans hview1).symm
  exact .pure ⟨sig, rfl, hfollows, hpasses, herrors.congr hview,
    fun b hb => (hparams b hb).congr hview, fun h => (hrequests h).mono hle1 (Step.le _ hrun3)⟩

/-- A call without errors whose type arguments are inferred. -/
theorem leads_inferCall (hp : p.IsTable) {id : FuncId} {ts : List Ty}
    (hgeneric : (p.func id).isGeneric = true) (hinfers : Infers p o n c s id args ts) (span : Span)
    (hle : s0.Le s) :
    Leads (.passed s0) (envAt p o n c) s (inferCall id [] args span) fun v s' =>
      ∃ sig : FnSig, v = .ofType sig.ret ∧ Accepts p o n c s id args ts sig ∧
        (ts.any Ty.hasGeneric = false → s.Requests s' (.func id) ts) := by
  have htemplate : Leads (.passed s0) (envAt p o n c) s (instantiateSig id [] []) fun a s1 =>
      a = (p.func id).sig ∧ s1 = s := .package (.pure ⟨rfl, rfl⟩)
  refine .package (.bind htemplate ?_)
  rintro template s1 - ⟨rfl, rfl⟩
  split
  · exact .stop (leads_newError hle rfl)
  next hinferable =>
  replace hinferable : ¬(!Generic.isInferable (p.func id).generics
    ((p.func id).sig.params.map (·.type))) = true := hinferable
  have hslots := slots_of_isInferable (hp.faithful id) hgeneric (by simpa using hinferable)
  have hargs : Leads (.passed s0) (envAt p o n c) s1
      (inferArgs (targets (p.func id).sig args) [] {}) fun a s2 => s2.view = s1.view ∧
        a.2.ordered? (p.func id).generics = some ts ∧ Evaluated (envAt p o n c) s1 args a.1 ∧
        ∀ r ∈ targets (p.func id).sig args, Covers args a.1 r := by
    intro a s2 hrun hpassed
    obtain ⟨hview, -⟩ := leads_passes (asks_targets _) hle hrun hpassed
    obtain ⟨heval, -, hcovers⟩ := leads_inferArgs (fun r hr => by
      obtain ⟨b, -, hr⟩ := List.mem_flatMap.mp hr
      exact (mem_received hr).1) hle (fun _ h => by cases h) hrun hpassed
    obtain ⟨known, found, s3, hrun', hts⟩ := hinfers
    cases hrun.symm.trans hrun'
    exact ⟨hview, hts, heval, hcovers⟩
  refine .bind hargs ?_
  rintro ⟨known, found⟩ s2 hrun2 ⟨hview2, hts, heval, hcovers⟩
  have hle2 : s1.Le s2 := Step.le _ hrun2
  have hreports : Asks (.any p) c (found.conflicts.forM fun q =>
      report (.inferenceConflict q.1 q.2.1.kind q.2.2.kind) span) :=
    .listForM fun _ _ => asks_report trivial rfl
  refine .bind (leads_passes hreports (hle.trans hle2)) fun _ s3 hrun3 hview3 => ?_
  have hle3 : s1.Le s3 := hle2.trans (Step.le _ hrun3)
  have hview : s1.view = s3.view := (hview3.1.trans hview2).symm
  have hne : ts ≠ [] := by
    rintro rfl
    have hlength := length_of_ordered hts
    simp [FuncInfo.isGeneric, List.length_eq_zero_iff.mp hlength.symm] at hgeneric
  rw [show found.ordered? ((envAt p o n c).package.func id).generics = some ts from hts]
  refine (leads_instance hne _ known span (hle.trans hle3)).mono ?_
  rintro v s' ⟨sig, hv, hfollows, hsig, herrors, hparams, hrequests⟩
  have hsame : slots (p.func id).sig.params = slots sig.params :=
    hslots.trans hfollows.slots.symm
  refine ⟨sig, hv,
    ⟨hsame, hfollows.isUnsafe, hsig.congr hview, ?_, known, span, heval, hcovers, ?_⟩,
    fun h => (hrequests h).mono hle3 (.refl s')⟩
  · rw [← hsame]
    exact herrors.congr hview
  · rw [← hsame]
    exact fun b hb => (hparams b hb).congr hview

end Inference

end JaneCheck.Check
